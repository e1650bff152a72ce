import Mathlib.Order.Lattice
import StrandScript.Block
import StrandScript.Proofs.Outcome

/-!
# Block trees

The tree of a list of glyphs holds the glyphs in their order. Growing it fails only for want of
nesting, and linking it never fails.

* `Item.flatten`: the glyphs of a block in reading order, those of blocks inside included.
* `Item.nesting`: how deep a block is nested, itself included.
* `Item.Filled`: no block inside is empty.
* `Item.grow_cases`: the tree that is grown from some glyphs, or the limit that was too low.
* `Item.link_eq_ok`: a filled tree linked.
-/

namespace StrandScript.Item

variable {α : Type}

/-- The glyphs of a block in reading order. -/
def flatten : List (Item α) → List α
  | [] => []
  | .glyph a :: rest => a :: flatten rest
  | .block items :: rest => flatten items ++ flatten rest

/-- The number of blocks that lie around each other, the block itself included. -/
def nesting : List (Item α) → Nat
  | [] => 1
  | .glyph _ :: rest => nesting rest
  | .block items :: rest => max (nesting items + 1) (nesting rest)

/-- No block inside a block is empty. -/
def Filled : List (Item α) → Prop
  | [] => True
  | .glyph _ :: rest => Filled rest
  | .block items :: rest => items ≠ [] ∧ Filled items ∧ Filled rest

section Members

variable (a : α) (items rest : List (Item α))

@[simp] theorem flatten_nil : flatten ([] : List (Item α)) = [] := by rw [flatten]

@[simp] theorem flatten_glyph : flatten (.glyph a :: rest) = a :: flatten rest := by rw [flatten]

@[simp] theorem flatten_block : flatten (.block items :: rest) = flatten items ++ flatten rest := by
  rw [flatten]

@[simp] theorem nesting_nil : nesting ([] : List (Item α)) = 1 := by rw [nesting]

@[simp] theorem nesting_glyph : nesting (.glyph a :: rest) = nesting rest := by rw [nesting]

@[simp] theorem nesting_block :
    nesting (.block items :: rest) = max (nesting items + 1) (nesting rest) := by rw [nesting]

@[simp] theorem filled_nil : Filled ([] : List (Item α)) := by simp [Filled]

@[simp] theorem filled_glyph : Filled (.glyph a :: rest) ↔ Filled rest := by rw [Filled]

@[simp] theorem filled_block :
    Filled (.block items :: rest) ↔ items ≠ [] ∧ Filled items ∧ Filled rest := by rw [Filled]

theorem nesting_pos : 1 ≤ nesting items := by
  induction items using flatten.induct with
  | case1 => simp
  | case2 a rest ih => simpa using ih
  | case3 items rest _ ih =>
    rw [nesting_block]
    exact ih.trans (le_max_right _ _)

variable {items}

theorem flatten_ne_nil (hf : Filled items) (hne : items ≠ []) : flatten items ≠ [] := by
  induction items using flatten.induct with
  | case1 => exact absurd rfl hne
  | case2 a rest _ => simp
  | case3 items rest ih _ =>
    rw [filled_block] at hf
    rw [flatten_block]
    exact List.append_ne_nil_of_left_ne_nil (ih hf.2.1 hf.1) _

end Members

/-! ## Growing -/

/-- What growing takes from the glyphs `gs` at level `c`: the members `items`, with `rest` left
over. All levels are below `c + k`. -/
structure Grown (level : α → Int) (c : Int) (k : Nat) (gs : List α) (items : List (Item α))
    (rest : List α) : Prop where
  flatten : flatten items ++ rest = gs
  stop : ∀ x ∈ rest.head?, level x < c
  filled : Filled items
  nonempty : ∀ x ∈ gs.head?, c ≤ level x → items ≠ []
  nesting : nesting items ≤ max k 1

variable {level : α → Int} {limit : Nat} {c : Int} {k : Nat}

theorem Grown.stopped {g : α} (gs : List α) (h : level g < c) :
    Grown level c k (g :: gs) [] (g :: gs) := by
  refine ⟨by simp, ?_, by simp, ?_, by simp⟩
  · rintro x ⟨⟩
    exact h
  · rintro x ⟨⟩ hc
    omega

theorem Grown.glyph {g : α} {gs rest : List α} {items : List (Item α)}
    (h : Grown level c k gs items rest) : Grown level c k (g :: gs) (.glyph g :: items) rest := by
  refine ⟨?_, h.stop, ?_, fun _ _ _ => List.cons_ne_nil _ _, ?_⟩
  · rw [flatten_glyph, List.cons_append, h.flatten]
  · exact (filled_glyph g items).mpr h.filled
  · rw [nesting_glyph]
    exact h.nesting

theorem Grown.block {gs mid rest : List α} {inner items : List (Item α)} (hne : inner ≠ [])
    (hi : Grown level (c + 1) k gs inner mid) (hk : 1 ≤ k)
    (h : Grown level c (k + 1) mid items rest) :
    Grown level c (k + 1) gs (.block inner :: items) rest := by
  refine ⟨?_, h.stop, ?_, fun _ _ _ => List.cons_ne_nil _ _, ?_⟩
  · rw [flatten_block, List.append_assoc, h.flatten, hi.flatten]
  · exact (filled_block inner items).mpr ⟨hne, hi.filled, h.filled⟩
  · have h₁ := hi.nesting
    have h₂ := h.nesting
    rw [nesting_block]
    omega

/-- Growing after a first member has been taken: nothing is left, or it goes on. -/
def growOn (level : α → Int) (limit : Nat) (c : Int) (item : Item α) (rest : List α) :
    Except Fault (List (Item α) × List α) :=
  if rest.isEmpty then .ok ([item], [])
  else (grow level limit c rest).map fun (items, rest) => (item :: items, rest)

theorem grow_stop {g : α} (gs : List α) (h : level g < c) :
    grow level (limit + 1) c (g :: gs) = .ok ([], g :: gs) := by
  rw [grow, if_pos h]
  rfl

theorem grow_glyph {g : α} (gs : List α) (h : level g = c) :
    grow level (limit + 1) c (g :: gs) = growOn level limit c (.glyph g) gs := by
  rw [grow, if_neg (by omega), if_pos h]
  unfold growOn
  cases gs with
  | nil => rfl
  | cons g' gs =>
    cases hg : grow level limit c (g' :: gs) <;>
      simp [hg, bind, Except.bind, pure, Except.pure, Except.map]

theorem grow_block {g : α} {gs rest : List α} {items : List (Item α)} (h : c < level g)
    (hi : grow level limit (c + 1) (g :: gs) = .ok (items, rest)) :
    grow level (limit + 1) c (g :: gs) = growOn level limit c (.block items) rest := by
  rw [grow, if_neg (by omega), if_neg (by omega), hi]
  unfold growOn
  cases rest with
  | nil => rfl
  | cons r rs =>
    cases hg : grow level limit c (r :: rs) <;>
      simp [hg, bind, Except.bind, pure, Except.pure, Except.map]

theorem grow_block_error {g : α} {gs : List α} {f : Fault} (h : c < level g)
    (hi : grow level limit (c + 1) (g :: gs) = .error f) :
    grow level (limit + 1) c (g :: gs) = .error f := by
  rw [grow, if_neg (by omega), if_neg (by omega), hi]
  rfl

/-- What growing goes on to, from what growing the rest comes to. -/
theorem growOn_cases (item : Item α) {rest : List α}
    (h : rest ≠ [] → (∃ items rest', grow level limit c rest = .ok (items, rest') ∧
        Grown level c k rest items rest') ∨
      grow level limit c rest = .error .tooDeep ∧ limit < rest.length + k) :
    (∃ items rest', growOn level limit c item rest = .ok (item :: items, rest') ∧
        Grown level c k rest items rest') ∨
      growOn level limit c item rest = .error .tooDeep ∧ limit < rest.length + k := by
  cases rest with
  | nil =>
    refine Or.inl ⟨[], [], rfl, by simp, ?_, by simp, ?_, by simp⟩
    · rintro x ⟨⟩
    · rintro x ⟨⟩
  | cons r rs =>
    obtain ⟨items, rest', hg, hgrown⟩ | ⟨hg, hlt⟩ := h (List.cons_ne_nil r rs)
    · exact Or.inl ⟨items, rest', by simp [growOn, hg, Except.map], hgrown⟩
    · exact Or.inr ⟨by simp [growOn, hg, Except.map], hlt⟩

/-- **Growing a tree** takes the glyphs up to the first one below the level, or nests too deep. That
cannot happen when the limit is at least the number of glyphs plus the number of levels. -/
theorem grow_cases (limit : Nat) (c : Int) (k : Nat) (gs : List α) (hne : gs ≠ [])
    (hlevel : ∀ x ∈ gs, level x < c + k) :
    (∃ items rest, grow level limit c gs = .ok (items, rest) ∧ Grown level c k gs items rest) ∨
      grow level limit c gs = .error .tooDeep ∧ limit < gs.length + k := by
  induction limit generalizing c k gs with
  | zero =>
    have := List.length_pos_iff.mpr hne
    exact Or.inr ⟨by rw [grow], by omega⟩
  | succ limit ih =>
    cases gs with
    | nil => exact absurd rfl hne
    | cons g gs =>
      have hg := hlevel g List.mem_cons_self
      rcases lt_trichotomy (level g) c with h | h | h
      · exact Or.inl ⟨[], g :: gs, grow_stop gs h, .stopped gs h⟩
      · rw [grow_glyph gs h]
        obtain ⟨items, rest, hgrow, hgrown⟩ | ⟨hgrow, hlt⟩ :=
          growOn_cases (.glyph g) fun hne' =>
            ih c k gs hne' fun x hx => hlevel x (List.mem_cons_of_mem _ hx)
        · exact Or.inl ⟨.glyph g :: items, rest, hgrow, hgrown.glyph⟩
        · exact Or.inr ⟨hgrow, by rw [List.length_cons]; omega⟩
      · -- A higher glyph opens a block, which takes that glyph at least.
        obtain ⟨k, rfl⟩ : ∃ k', k = k' + 1 := ⟨k - 1, by omega⟩
        obtain ⟨inner, mid, hinner, hin⟩ | ⟨hinner, hlt⟩ :=
          ih (c + 1) k (g :: gs) hne fun x hx => by have := hlevel x hx; omega
        · have hinner_ne := hin.nonempty g rfl (by omega)
          have hmid : ∀ x ∈ mid, x ∈ g :: gs := fun x hx => by
            rw [← hin.flatten]
            exact List.mem_append_right _ hx
          rw [grow_block h hinner]
          obtain ⟨items, rest, hgrow, hgrown⟩ | ⟨hgrow, hlt⟩ :=
            growOn_cases (.block inner) fun hne' =>
              ih c (k + 1) mid hne' fun x hx => hlevel x (hmid x hx)
          · exact Or.inl ⟨.block inner :: items, rest, hgrow,
              .block hinner_ne hin (by omega) hgrown⟩
          · have hlen := congrArg List.length hin.flatten
            have := List.length_pos_iff.mpr (flatten_ne_nil hin.filled hinner_ne)
            rw [List.length_append] at hlen
            exact Or.inr ⟨hgrow, by omega⟩
        · exact Or.inr ⟨grow_block_error h hinner, by omega⟩

/-! ## Linking -/

/-- The first glyph of a filled block is the first in reading order. -/
theorem firstOf_eq_ok {items : List (Item α)} (h : Filled items) :
    firstOf items = .ok (flatten items).head? := by
  induction items using flatten.induct with
  | case1 => simp [firstOf]
  | case2 a rest _ => simp [firstOf, first, Except.map]
  | case3 items rest ih _ =>
    obtain ⟨hne, hitems, -⟩ := (filled_block items rest).mp h
    obtain ⟨a, as, ha⟩ := List.exists_cons_of_ne_nil (flatten_ne_nil hitems hne)
    obtain ⟨i, is, rfl⟩ := List.exists_cons_of_ne_nil hne
    have hfirst := ih hitems
    rw [ha] at hfirst
    rw [flatten_block, ha]
    simpa [firstOf, first] using hfirst

/-- Linking changes neither the order nor the nesting of the glyphs. -/
theorem linkMembers_eq_ok (f : α) (depth : Int) (following : Option α) {items : List (Item α)}
    (h : Filled items) : ∃ ls, linkMembers f depth following items = .ok ls ∧
      (flatten ls).map (·.glyph) = flatten items ∧ nesting ls = nesting items := by
  induction items using flatten.induct generalizing f depth following with
  | case1 => exact ⟨[], by rw [linkMembers], by simp, by simp⟩
  | case2 a rest ih =>
    obtain ⟨ls, hls, hflat, hnest⟩ := ih f depth following ((filled_glyph a rest).mp h)
    refine ⟨.glyph ⟨a, f, depth, following⟩ :: ls, ?_, ?_, ?_⟩
    · rw [linkMembers, hls]
      rfl
    · rw [flatten_glyph, List.map_cons, hflat, flatten_glyph]
    · rw [nesting_glyph, hnest, nesting_glyph]
  | case3 items rest ih ih' =>
    obtain ⟨hne, hitems, hrest⟩ := (filled_block items rest).mp h
    obtain ⟨a, as, ha⟩ := List.exists_cons_of_ne_nil (flatten_ne_nil hitems hne)
    have hfirst := firstOf_eq_ok hitems
    rw [ha] at hfirst
    obtain ⟨inner, hinner, hflat, hnest⟩ :=
      ih a (depth + 1) ((flatten rest).head?.orElse fun _ => following) hitems
    obtain ⟨ls, hls, hflat', hnest'⟩ :=
      ih' f depth ((flatten rest).head?.orElse fun _ => following) hrest
    refine ⟨.block inner :: ls, ?_, ?_, ?_⟩
    · rw [linkMembers, firstOf_eq_ok hrest, hfirst]
      simp only [bind, Except.bind, List.head?_cons, hinner, hls]
      rfl
    · rw [flatten_block, List.map_append, hflat, hflat', flatten_block]
    · rw [nesting_block, hnest, hnest', nesting_block]

/-- **A filled tree is linked without a fault**, its glyphs staying as they are. -/
theorem link_eq_ok (depth : Int) (following : Option α) {items : List (Item α)} (h : Filled items) :
    ∃ ls, link depth following items = .ok ls ∧
      (flatten ls).map (·.glyph) = flatten items ∧ nesting ls = nesting items := by
  unfold link
  rw [firstOf_eq_ok h]
  by_cases hne : items = []
  · subst hne
    exact ⟨[], by simp [bind, Except.bind], by simp, by simp⟩
  · obtain ⟨a, as, ha⟩ := List.exists_cons_of_ne_nil (flatten_ne_nil h hne)
    obtain ⟨ls, hls, hspec⟩ := linkMembers_eq_ok a depth following h
    refine ⟨ls, ?_, hspec⟩
    rw [ha]
    exact hls

end StrandScript.Item
