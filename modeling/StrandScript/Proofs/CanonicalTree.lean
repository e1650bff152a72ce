import Mathlib.Order.Lattice
import StrandScript.Proofs.BlockTree

/-!
# The one tree of a list of glyphs

Growing at level `c` takes the longest run of glyphs from the front that have at least that level,
and stands each of them as deep as its level is above `c`. No block inside is empty and no two
blocks are neighbours, and there is only one such tree.

* `Item.depths`: the glyphs of a block in reading order, each with the number of blocks around it.
* `Item.Canonical`: a tree whose glyphs stand as deep as their levels say, without empty blocks and
  without blocks side by side. Its glyphs in reading order determine it
  (`Canonical.eq_of_flatten_eq`).
* `Item.Grows`: the rules by which a tree is grown, free of the limit (`grows_of_grow`).
* `Item.grow_canonical`: **growing gives the canonical tree** of the glyphs it takes, and gives
  every canonical tree back from its glyphs.
-/

namespace StrandScript.Item

variable {α : Type}

/-! ## Depths -/

/-- The glyphs of a block in reading order, each with the number of blocks inside this one that lie
around it. -/
def depths : List (Item α) → List (α × Nat)
  | [] => []
  | .glyph a :: rest => (a, 0) :: depths rest
  | .block items :: rest => (depths items).map (fun p => (p.1, p.2 + 1)) ++ depths rest

/-- No two blocks are neighbours in the same block. -/
def Spaced : List (Item α) → Prop
  | [] => True
  | .glyph _ :: rest => Spaced rest
  | .block items :: rest => Spaced items ∧ (∀ inner, .block inner ∉ rest.head?) ∧ Spaced rest

section Members

variable (a : α) (items rest : List (Item α))

@[simp] theorem depths_nil : depths ([] : List (Item α)) = [] := by rw [depths]

@[simp] theorem depths_glyph : depths (.glyph a :: rest) = (a, 0) :: depths rest := by rw [depths]

@[simp] theorem depths_block : depths (.block items :: rest) =
    (depths items).map (fun p => (p.1, p.2 + 1)) ++ depths rest := by rw [depths]

@[simp] theorem spaced_nil : Spaced ([] : List (Item α)) := by simp [Spaced]

@[simp] theorem spaced_glyph : Spaced (.glyph a :: rest) ↔ Spaced rest := by rw [Spaced]

@[simp] theorem spaced_block : Spaced (.block items :: rest) ↔
    Spaced items ∧ (∀ inner, .block inner ∉ rest.head?) ∧ Spaced rest := by rw [Spaced]

theorem map_fst_depths : (depths items).map Prod.fst = flatten items := by
  induction items using flatten.induct with
  | case1 => simp
  | case2 a rest ih => simp [ih]
  | case3 items rest ih ih' =>
    rw [depths_block, flatten_block, List.map_append, List.map_map, ih', ← ih]
    rfl

end Members

/-! ## Canonical trees -/

/-- A tree whose glyphs stand as deep as their levels are above `c`, in which no block is empty and
no two blocks are neighbours. -/
structure Canonical (level : α → Int) (c : Int) (items : List (Item α)) : Prop where
  filled : Filled items
  spaced : Spaced items
  level_eq : ∀ p ∈ depths items, level p.1 = c + p.2

variable {level : α → Int} {c : Int} {items rest : List (Item α)}

theorem canonical_nil : Canonical level c ([] : List (Item α)) := ⟨by simp, by simp, by simp⟩

theorem canonical_glyph {a : α} :
    Canonical level c (.glyph a :: rest) ↔ level a = c ∧ Canonical level c rest := by
  constructor
  · rintro ⟨hf, hs, hl⟩
    rw [depths_glyph, List.forall_mem_cons] at hl
    exact ⟨by simpa using hl.1, by simpa using hf, by simpa using hs, hl.2⟩
  · rintro ⟨ha, hf, hs, hl⟩
    refine ⟨by simpa using hf, by simpa using hs, ?_⟩
    rw [depths_glyph, List.forall_mem_cons]
    exact ⟨by simpa using ha, hl⟩

theorem canonical_block : Canonical level c (.block items :: rest) ↔
    items ≠ [] ∧ Canonical level (c + 1) items ∧ (∀ inner, .block inner ∉ rest.head?) ∧
      Canonical level c rest := by
  have hdeep : (∀ p ∈ (depths items).map (fun p => (p.1, p.2 + 1)), level p.1 = c + (p.2 : Nat)) ↔
      ∀ p ∈ depths items, level p.1 = c + 1 + p.2 := by
    rw [List.forall_mem_map]
    refine forall₂_congr fun p _ => ?_
    push_cast
    rw [Int.add_assoc, Int.add_comm 1]
  constructor
  · rintro ⟨hf, hs, hl⟩
    rw [filled_block] at hf
    rw [spaced_block] at hs
    rw [depths_block, List.forall_mem_append, hdeep] at hl
    exact ⟨hf.1, ⟨hf.2.1, hs.1, hl.1⟩, hs.2.1, hf.2.2, hs.2.2, hl.2⟩
  · rintro ⟨hne, ⟨hf, hs, hl⟩, hhead, hf', hs', hl'⟩
    refine ⟨(filled_block _ _).mpr ⟨hne, hf, hf'⟩, (spaced_block _ _).mpr ⟨hs, hhead, hs'⟩, ?_⟩
    rw [depths_block, List.forall_mem_append, hdeep]
    exact ⟨hl, hl'⟩

theorem Canonical.le_level (h : Canonical level c items) {a : α} (ha : a ∈ flatten items) :
    c ≤ level a := by
  rw [← map_fst_depths] at ha
  obtain ⟨p, hp, rfl⟩ := List.mem_map.mp ha
  have := h.level_eq p hp
  omega

/-- After a block the next glyph, if any, is a member itself and so of level `c`. -/
theorem Canonical.level_of_head (h : Canonical level c rest)
    (hhead : ∀ inner, .block inner ∉ rest.head?) : ∀ a ∈ (flatten rest).head?, level a = c := by
  cases rest with
  | nil => simp
  | cons i rest =>
    cases i with
    | glyph a =>
      rw [flatten_glyph]
      rintro b ⟨⟩
      exact (canonical_glyph.mp h).1
    | block inner => exact absurd rfl (hhead inner)

/-- A list that goes on, after a part where `p` holds throughout, with a member where it does
not. -/
theorem span_append {p : α → Bool} (xs ys : List α) (hx : ∀ x ∈ xs, p x = true)
    (hy : ∀ y ∈ ys.head?, p y = false) :
    (xs ++ ys).takeWhile p = xs ∧ (xs ++ ys).dropWhile p = ys := by
  rw [List.takeWhile_append_of_pos hx, List.dropWhile_append_of_pos hx]
  cases ys with
  | nil => simp
  | cons y ys =>
    have := hy y rfl
    simp [this]

/-- The glyphs of a block at the front are those of a higher level. -/
theorem Canonical.span_block (h : Canonical level c (.block items :: rest)) :
    (flatten items ++ flatten rest).takeWhile (c + 1 ≤ level ·) = flatten items ∧
      (flatten items ++ flatten rest).dropWhile (c + 1 ≤ level ·) = flatten rest := by
  obtain ⟨-, hitems, hhead, hrest⟩ := canonical_block.mp h
  apply span_append
  · intro x hx
    simpa using hitems.le_level hx
  · intro y hy
    have := hrest.level_of_head hhead y hy
    rw [decide_eq_false_iff_not]
    omega

theorem Canonical.head_block (h : Canonical level c (.block items :: rest)) :
    ∃ a ∈ (flatten (.block items :: rest)).head?, c < level a := by
  obtain ⟨hne, hitems, -⟩ := canonical_block.mp h
  obtain ⟨a, as, ha⟩ := List.exists_cons_of_ne_nil (flatten_ne_nil hitems.filled hne)
  refine ⟨a, by rw [flatten_block, ha]; rfl, ?_⟩
  have := hitems.le_level (a := a) (by simp [ha])
  omega

/-- **A canonical tree is determined by its glyphs** in reading order. -/
theorem Canonical.eq_of_flatten_eq {t u : List (Item α)} (ht : Canonical level c t)
    (hu : Canonical level c u) (h : flatten t = flatten u) : t = u := by
  induction t using flatten.induct generalizing c u with
  | case1 =>
    by_contra hne
    exact flatten_ne_nil hu.filled (Ne.symm hne) (by rw [← h, flatten_nil])
  | case2 a rest ih =>
    obtain ⟨ha, hrest⟩ := canonical_glyph.mp ht
    cases u with
    | nil => simp at h
    | cons i u =>
      cases i with
      | glyph b =>
        rw [flatten_glyph, flatten_glyph, List.cons.injEq] at h
        rw [h.1, ih hrest (canonical_glyph.mp hu).2 h.2]
      | block inner =>
        obtain ⟨b, hb, hlt⟩ := hu.head_block
        rw [← h, flatten_glyph] at hb
        cases hb
        omega
  | case3 items rest ih ih' =>
    cases u with
    | nil =>
      rw [flatten_nil] at h
      exact absurd h (flatten_ne_nil ht.filled (List.cons_ne_nil _ _))
    | cons i u =>
      cases i with
      | glyph b =>
        obtain ⟨a, ha, hlt⟩ := ht.head_block
        rw [h, flatten_glyph] at ha
        cases ha
        have := (canonical_glyph.mp hu).1
        omega
      | block inner =>
        -- Both blocks at the front take the glyphs of a higher level, so they take the same.
        rw [flatten_block, flatten_block] at h
        obtain ⟨hfront, hback⟩ := ht.span_block
        obtain ⟨hfront', hback'⟩ := hu.span_block
        rw [h] at hfront hback
        obtain ⟨-, hitems, -, hrest⟩ := canonical_block.mp ht
        obtain ⟨-, hinner, -, hu⟩ := canonical_block.mp hu
        rw [ih hitems hinner (hfront.symm.trans hfront'), ih' hrest hu (hback.symm.trans hback')]

/-! ## The rules of growing -/

/-- Growing at level `c` takes the members `items` from the front of the glyphs and leaves the
rest. -/
inductive Grows (level : α → Int) : Int → List α → List (Item α) → List α → Prop
  | empty {c : Int} : Grows level c [] [] []
  | stop {c : Int} {g : α} {gs : List α} (h : level g < c) : Grows level c (g :: gs) [] (g :: gs)
  | glyph {c : Int} {g : α} {gs rest : List α} {items : List (Item α)} (h : level g = c)
      (later : Grows level c gs items rest) : Grows level c (g :: gs) (.glyph g :: items) rest
  | block {c : Int} {g : α} {gs mid rest : List α} {inner items : List (Item α)} (h : c < level g)
      (inside : Grows level (c + 1) (g :: gs) inner mid) (later : Grows level c mid items rest) :
      Grows level c (g :: gs) (.block inner :: items) rest

theorem growOn_eq_ok {limit : Nat} {item : Item α} {gs rest : List α}
    (h : growOn level limit c item gs = .ok (items, rest)) :
    ∃ later, items = item :: later ∧
      (gs = [] ∧ later = [] ∧ rest = [] ∨ grow level limit c gs = .ok (later, rest)) := by
  cases gs with
  | nil =>
    cases h
    exact ⟨[], rfl, Or.inl ⟨rfl, rfl, rfl⟩⟩
  | cons g gs =>
    cases hg : grow level limit c (g :: gs) with
    | error f => simp [growOn, hg, Except.map] at h
    | ok r =>
      obtain ⟨later, rest'⟩ := r
      simp only [growOn, hg, Except.map, List.isEmpty_cons, Bool.false_eq_true, if_false,
        Except.ok.injEq, Prod.mk.injEq] at h
      obtain ⟨rfl, rfl⟩ := h
      exact ⟨later, rfl, Or.inr rfl⟩

/-- A tree that is grown within some limit is grown by the rules. -/
theorem grows_of_grow {limit : Nat} {gs rest : List α}
    (h : grow level limit c gs = .ok (items, rest)) : Grows level c gs items rest := by
  induction limit generalizing c gs items rest with
  | zero => simp [grow] at h
  | succ limit ih =>
    have later {mid : List α} {later : List (Item α)} (hl : mid = [] ∧ later = [] ∧ rest = [] ∨
        grow level limit c mid = .ok (later, rest)) : Grows level c mid later rest := by
      obtain ⟨rfl, rfl, rfl⟩ | hl := hl
      · exact .empty
      · exact ih hl
    cases gs with
    | nil => simp [grow] at h
    | cons g gs =>
      rcases lt_trichotomy (level g) c with hg | hg | hg
      · rw [grow_stop gs hg] at h
        cases h
        exact .stop hg
      · rw [grow_glyph gs hg] at h
        obtain ⟨items, rfl, hl⟩ := growOn_eq_ok h
        exact .glyph hg (later hl)
      · cases hin : grow level limit (c + 1) (g :: gs) with
        | error f =>
          rw [grow_block_error hg hin] at h
          cases h
        | ok r =>
          obtain ⟨inner, mid⟩ := r
          rw [grow_block hg hin] at h
          obtain ⟨items, rfl, hl⟩ := growOn_eq_ok h
          exact .block hg (ih hin) (later hl)

theorem Grows.head_lt {gs rest : List α} (h : Grows level c gs items rest) :
    ∀ x ∈ rest.head?, level x < c := by
  induction h with
  | empty => simp
  | stop hg =>
    rintro x ⟨⟩
    exact hg
  | glyph _ _ ih => exact ih
  | block _ _ _ _ ih => exact ih

theorem Grows.ne_nil {g : α} {gs rest : List α} (h : Grows level c (g :: gs) items rest)
    (hg : c ≤ level g) : items ≠ [] := by
  cases h with
  | stop hlt => omega
  | glyph => exact List.cons_ne_nil _ _
  | block => exact List.cons_ne_nil _ _

/-- Only a glyph of a higher level opens a block. -/
theorem Grows.head_of_le {gs rest : List α} (h : Grows level c gs items rest)
    (hle : ∀ x ∈ gs.head?, level x ≤ c) : ∀ inner, .block inner ∉ items.head? := by
  cases h with
  | empty => simp
  | stop => simp
  | glyph => simp
  | block hlt =>
    have := hle _ rfl
    omega

theorem Grows.canonical {gs rest : List α} (h : Grows level c gs items rest) :
    Canonical level c items := by
  induction h with
  | empty => exact canonical_nil
  | stop => exact canonical_nil
  | glyph hg _ ih => exact canonical_glyph.mpr ⟨hg, ih⟩
  | block hg inside later ih ih' =>
    -- The glyph after the inner block was too low for it, so it opens no block of its own.
    refine canonical_block.mpr ⟨inside.ne_nil (by omega), ih, later.head_of_le ?_, ih'⟩
    intro x hx
    have := inside.head_lt x hx
    omega

/-! ## Growing and flattening -/

/-- How many levels from `c` on the glyphs reach. -/
def height (level : α → Int) (c : Int) : List α → Nat
  | [] => 0
  | g :: gs => max (level g - c + 1).toNat (height level c gs)

theorem lt_height {gs : List α} {g : α} (h : g ∈ gs) : level g < c + height level c gs := by
  induction gs with
  | nil => simp at h
  | cons g' gs ih =>
    unfold height
    obtain rfl | h := List.mem_cons.mp h
    · omega
    · have := ih h
      omega

/-- Growing comes to a tree and a rest whatever the limit is, unless the limit is too low: it is not
when it is at least the number of glyphs plus the number of levels. -/
def GrowsTo (level : α → Int) (c : Int) (gs : List α) (items : List (Item α)) (rest : List α) :
    Prop :=
  ∀ limit, grow level limit c gs = .ok (items, rest) ∨
    grow level limit c gs = .error .tooDeep ∧ limit < gs.length + height level c gs

/-- What is grown within some limit is canonical, and takes the glyphs up to the first of a lower
level. -/
theorem Grown.canonical {limit k : Nat} {gs rest : List α} (hgrown : Grown level c k gs items rest)
    (h : grow level limit c gs = .ok (items, rest)) :
    Canonical level c items ∧ gs.takeWhile (c ≤ level ·) = Item.flatten items ∧
      gs.dropWhile (c ≤ level ·) = rest := by
  have hcanon := (grows_of_grow h).canonical
  refine ⟨hcanon, ?_⟩
  rw [← hgrown.flatten]
  apply span_append
  · intro x hx
    simpa using hcanon.le_level hx
  · intro y hy
    simpa using hgrown.stop y hy

/-- The glyphs at the front that are not below the level have a canonical tree. -/
theorem exists_canonical (level : α → Int) (c : Int) {gs : List α} (hne : gs ≠ []) :
    ∃ items, Canonical level c items ∧ flatten items = gs.takeWhile (c ≤ level ·) := by
  obtain ⟨items, rest, hgrow, hgrown⟩ | ⟨-, hlt⟩ :=
    grow_cases (gs.length + height level c gs) c (height level c gs) gs hne fun x hx => lt_height hx
  · obtain ⟨hcanon, hfront, -⟩ := hgrown.canonical hgrow
    exact ⟨items, hcanon, hfront.symm⟩
  · omega

/-- Growing comes to the canonical tree of the glyphs at the front. -/
theorem Canonical.growsTo {gs : List α} (hne : gs ≠ []) (h : Canonical level c items)
    (hflat : flatten items = gs.takeWhile (c ≤ level ·)) :
    GrowsTo level c gs items (gs.dropWhile (c ≤ level ·)) := by
  intro limit
  obtain ⟨items', rest, hgrow, hgrown⟩ | hdeep :=
    grow_cases limit c (height level c gs) gs hne fun x hx => lt_height hx
  · obtain ⟨hcanon, hfront, hback⟩ := hgrown.canonical hgrow
    rw [hback, h.eq_of_flatten_eq hcanon (hflat.trans hfront)]
    exact Or.inl hgrow
  · exact Or.inr hdeep

/-- **Growing gives the one canonical tree.** At level `c` it takes the longest run of glyphs from
the front that are of that level or higher and leaves the others; it makes of them the tree, the
only one, in which they stand in their order as deep as their levels are above `c`, with no empty
block inside and no blocks side by side. From the glyphs of such a tree it gives the tree back. -/
theorem grow_canonical (level : α → Int) (c : Int) (gs : List α) (hne : gs ≠ []) :
    (∃ items, Canonical level c items ∧ flatten items = gs.takeWhile (c ≤ level ·) ∧
        (∀ t, Canonical level c t → flatten t = gs.takeWhile (c ≤ level ·) → t = items) ∧
        GrowsTo level c gs items (gs.dropWhile (c ≤ level ·))) ∧
      ∀ t, t ≠ [] → Canonical level c t → GrowsTo level c (flatten t) t [] := by
  constructor
  · obtain ⟨items, hcanon, hflat⟩ := exists_canonical level c hne
    refine ⟨items, hcanon, hflat, fun t ht h => ?_, hcanon.growsTo hne hflat⟩
    exact ht.eq_of_flatten_eq hcanon (h.trans hflat.symm)
  · intro t hne' ht
    obtain ⟨hfront, hback⟩ := span_append (p := (c ≤ level ·)) (flatten t) []
      (fun x hx => by simpa using ht.le_level hx) (by simp)
    rw [List.append_nil] at hfront hback
    have := ht.growsTo (flatten_ne_nil ht.filled hne') hfront.symm
    rwa [hback] at this

/-- Numbers that are their own levels: the tree starts deep, rises and falls by more than one, and
ends at a number below the level. -/
theorem grow_canonical_uneven : ([3, 3, 1, 2, 5, 2, 1, 0, 4] : List Int) ≠ [] ∧
    GrowsTo id 1 [3, 3, 1, 2, 5, 2, 1, 0, 4]
      [.block [.block [.glyph 3, .glyph 3]], .glyph 1,
        .block [.glyph 2, .block [.block [.block [.glyph 5]]], .glyph 2], .glyph 1] [0, 4] := by
  have hne : ([3, 3, 1, 2, 5, 2, 1, 0, 4] : List Int) ≠ [] := List.cons_ne_nil _ _
  obtain ⟨⟨items, -, -, huniq, hgrows⟩, -⟩ := grow_canonical id 1 [3, 3, 1, 2, 5, 2, 1, 0, 4] hne
  rw [← huniq [.block [.block [.glyph 3, .glyph 3]], .glyph 1,
        .block [.glyph 2, .block [.block [.block [.glyph 5]]], .glyph 2], .glyph 1]
      ⟨by simp, by simp, by simp⟩ (by simp)] at hgrows
  exact ⟨hne, hgrows⟩

end StrandScript.Item
