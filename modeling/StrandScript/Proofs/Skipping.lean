import StrandScript.Proofs.Calls
import StrandScript.Proofs.Rollback

/-!
# Which glyphs a run skips

A block without loops executes its glyphs in reading order, each at most once. It leaves out exactly
those that come, in some block around them, after a glyph that answered with a rollback
(`loopFree_run`).

* `Item.placed`: the glyphs of a block with their places in the tree.
* `Item.Ahead`: one place is that of an earlier member of a block around another place.
* `Run.placed`: a run in which the places of the glyphs are told. It is the run of the block itself
  (`relabel_placed`), since a run depends on the glyphs only through their steps (`block_relabel`).
-/

namespace StrandScript

namespace Item

variable {α β : Type}

/-! ## Places -/

/-- The glyphs of a block exchanged for others. -/
def relabel (f : α → β) : List (Item α) → List (Item β)
  | [] => []
  | .glyph a :: rest => .glyph (f a) :: relabel f rest
  | .block items :: rest => .block (relabel f items) :: relabel f rest

/-- The members of the block at `path`, counted from `i` on, their glyphs with their places: the
numbers of the members through which one goes down to them. -/
def placed : List Nat → Nat → List (Item α) → List (Item (List Nat × α))
  | _, _, [] => []
  | path, i, .glyph a :: rest => .glyph (path ++ [i], a) :: placed path (i + 1) rest
  | path, i, .block items :: rest =>
    .block (placed (path ++ [i]) 0 items) :: placed path (i + 1) rest

/-- In some block around place `q`, place `p` is that of an earlier member. -/
def Ahead (p q : List Nat) : Prop :=
  ∃ path k j rest, p = path ++ [k] ∧ q = path ++ j :: rest ∧ k < j

section Members

variable (f : α → β) (a : α) (items rest : List (Item α)) (path : List Nat) (i : Nat)

@[simp] theorem relabel_nil : relabel f [] = [] := by rw [relabel]

@[simp] theorem relabel_glyph : relabel f (.glyph a :: rest) = .glyph (f a) :: relabel f rest := by
  rw [relabel]

@[simp] theorem relabel_block :
    relabel f (.block items :: rest) = .block (relabel f items) :: relabel f rest := by rw [relabel]

@[simp] theorem placed_nil : placed path i ([] : List (Item α)) = [] := by rw [placed]

@[simp] theorem placed_glyph :
    placed path i (.glyph a :: rest) = .glyph (path ++ [i], a) :: placed path (i + 1) rest := by
  rw [placed]

@[simp] theorem placed_block : placed path i (.block items :: rest) =
    .block (placed (path ++ [i]) 0 items) :: placed path (i + 1) rest := by rw [placed]

theorem flatten_relabel : flatten (relabel f items) = (flatten items).map f := by
  induction items using flatten.induct with
  | case1 => simp
  | case2 a rest ih => simp [ih]
  | case3 items rest ih ih' => simp [ih, ih']

theorem relabel_snd_placed : relabel Prod.snd (placed path i items) = items := by
  induction items using flatten.induct generalizing path i with
  | case1 => simp
  | case2 a rest ih => simp [ih]
  | case3 items rest ih ih' => simp [ih, ih']

end Members

variable {path : List Nat} {i : Nat} {items : List (Item α)}

theorem place_of_mem {x : List Nat × α} (h : x ∈ flatten (placed path i items)) :
    ∃ j rest, i ≤ j ∧ x.1 = path ++ j :: rest := by
  induction items using flatten.induct generalizing path i with
  | case1 => simp at h
  | case2 a rest ih =>
    rw [placed_glyph, flatten_glyph, List.mem_cons] at h
    obtain rfl | h := h
    · exact ⟨i, [], Nat.le_refl i, rfl⟩
    · obtain ⟨j, p, hj, hp⟩ := ih h
      exact ⟨j, p, by omega, hp⟩
  | case3 items rest ih ih' =>
    rw [placed_block, flatten_block, List.mem_append] at h
    obtain h | h := h
    · obtain ⟨j, p, -, hp⟩ := ih h
      exact ⟨i, j :: p, Nat.le_refl i, by simp [hp]⟩
    · obtain ⟨j, p, hj, hp⟩ := ih' h
      exact ⟨j, p, by omega, hp⟩

theorem place_ne_of_mem {x : List Nat × α} (h : x ∈ flatten (placed path (i + 1) items)) :
    x.1 ≠ path ++ [i] := by
  obtain ⟨j, p, hj, hp⟩ := place_of_mem h
  rw [hp, Ne, List.append_cancel_left_eq, List.cons.injEq]
  omega

/-- The places of different glyphs are different. -/
theorem nodup_places (path : List Nat) (i : Nat) (items : List (Item α)) :
    ((flatten (placed path i items)).map Prod.fst).Nodup := by
  induction items using flatten.induct generalizing path i with
  | case1 => simp
  | case2 a rest ih =>
    rw [placed_glyph, flatten_glyph, List.map_cons, List.nodup_cons]
    refine ⟨fun h => ?_, ih path (i + 1)⟩
    obtain ⟨x, hx, hplace⟩ := List.mem_map.mp h
    exact place_ne_of_mem hx hplace
  | case3 items rest ih ih' =>
    rw [placed_block, flatten_block, List.map_append, List.nodup_append]
    refine ⟨ih (path ++ [i]) 0, ih' path (i + 1), ?_⟩
    intro p hp q hq
    obtain ⟨x, hx, rfl⟩ := List.mem_map.mp hp
    obtain ⟨y, hy, rfl⟩ := List.mem_map.mp hq
    obtain ⟨j, u, -, hxp⟩ := place_of_mem hx
    obtain ⟨k, v, hk, hyp⟩ := place_of_mem hy
    rw [hxp, hyp, List.append_assoc, Ne, List.append_cancel_left_eq, List.singleton_append,
      List.cons.injEq]
    omega

/-! ## Members ahead of a place -/

theorem not_ahead_nil (q : List Nat) : ¬ Ahead [] q := by
  rintro ⟨path, k, j, rest, h, -, -⟩
  simp at h

theorem ahead_cons {a b : Nat} {p q : List Nat} :
    Ahead (a :: p) (b :: q) ↔ p = [] ∧ a < b ∨ a = b ∧ Ahead p q := by
  constructor
  · rintro ⟨path, k, j, rest, hp, hq, hlt⟩
    cases path with
    | nil =>
      obtain ⟨rfl, rfl⟩ := List.cons.inj hp
      obtain ⟨rfl, rfl⟩ := List.cons.inj hq
      exact Or.inl ⟨rfl, hlt⟩
    | cons c path =>
      obtain ⟨rfl, rfl⟩ := List.cons.inj hp
      obtain ⟨rfl, rfl⟩ := List.cons.inj hq
      exact Or.inr ⟨rfl, path, k, j, rest, rfl, rfl, hlt⟩
  · rintro (⟨rfl, hlt⟩ | ⟨rfl, path, k, j, rest, rfl, rfl, hlt⟩)
    · exact ⟨[], a, b, q, rfl, rfl, hlt⟩
    · exact ⟨a :: path, k, j, rest, rfl, rfl, hlt⟩

theorem ahead_append (path : List Nat) {p q : List Nat} :
    Ahead (path ++ p) (path ++ q) ↔ Ahead p q := by
  induction path with
  | nil => rfl
  | cons a path ih =>
    rw [List.cons_append, List.cons_append, ahead_cons, ih]
    simp

end Item

namespace Run

open Item

variable {α β : Type}

/-! ## Runs with places -/

/-- A run with its glyphs exchanged for others. -/
def relabel (f : α → β) (r : Run α) : Run β :=
  ⟨r.trace.map fun e => ⟨f e.glyph, e.outcome, e.store⟩, r.store, r.fault⟩

theorem executed_relabel (f : α → β) (r : Run α) : (r.relabel f).executed = r.executed.map f := by
  simp [executed, relabel, Function.comp_def]

theorem relabel_after (f : α → β) (e : Entry α) (r : Run α) :
    (r.after e).relabel f = (r.relabel f).after ⟨f e.glyph, e.outcome, e.store⟩ := rfl

theorem relabel_andThen (f : α → β) (r : Run α) (k : Store → Run α) :
    (r.andThen k).relabel f = (r.relabel f).andThen fun s => (k s).relabel f := by
  unfold andThen
  cases hf : r.fault <;> simp [relabel, hf]

theorem members_relabel (steps : β → List Step) (f : α → β)
    {recur : List (Item β) → Store → Run β} {recur' : List (Item α) → Store → Run α}
    (hrec : ∀ items s, recur (Item.relabel f items) s = (recur' items s).relabel f)
    (whole items : List (Item α)) (s : Store) :
    members steps recur (Item.relabel f whole) (Item.relabel f items) s =
      (members (fun g => steps (f g)) recur' whole items s).relabel f := by
  induction items, s using members_induction (fun g => steps (f g)) with
  | nil s => rw [relabel_nil]; rfl
  | block items rest s ih =>
    rw [relabel_block, members, members, relabel_andThen, hrec]
    exact congrArg _ (funext ih)
  | fails g rest s e t hg =>
    simp only [relabel_glyph, members, hg]
    rfl
  | leaves g rest s t hg =>
    simp only [relabel_glyph, members, hg]
    rfl
  | proceeds g rest s t hg ih => simp only [relabel_glyph, members, hg, ih, relabel_after]
  | repeats g rest s t hg ih =>
    simp only [relabel_glyph, members, hg, hrec, relabel_after, relabel_andThen]
    exact congrArg (fun k => after _ (andThen _ k)) (funext ih)

/-- A run depends on the glyphs only through their steps. -/
theorem block_relabel (steps : β → List Step) (f : α → β) (limit : Nat) (items : List (Item α))
    (s : Store) : block steps limit (Item.relabel f items) s =
      (block (fun g => steps (f g)) limit items s).relabel f := by
  induction limit generalizing items s with
  | zero => rfl
  | succ limit ih =>
    unfold block
    cases s.saveable with
    | error e => rfl
    | ok => exact members_relabel steps f ih items items s

variable (steps : α → List Step)

/-- The run of a block in which the glyphs are told with their places. -/
def placed (limit : Nat) (items : List (Item α)) (s : Store) : Run (List Nat × α) :=
  block (fun g => steps g.2) limit (Item.placed [] 0 items) s

theorem relabel_placed (limit : Nat) (items : List (Item α)) (s : Store) :
    (placed steps limit items s).relabel Prod.snd = block steps limit items s := by
  unfold placed
  rw [← block_relabel, relabel_snd_placed]

/-! ## Skipped glyphs -/

/-- Some block around a place was left before that place, on the answer of one of its own glyphs. -/
def CutOff (es : List (Entry (List Nat × α))) (p : List Nat) : Prop :=
  ∃ e ∈ es, e.outcome = .ok .rollback ∧ Ahead e.glyph.1 p

/-- What a run does of the members of the block at `path`, from number `i` on: it executes some of
their glyphs in their order, and skips those that are cut off. -/
structure Passes (path : List Nat) (i : Nat) (items : List (Item α)) (r : Run (List Nat × α)) :
    Prop where
  executed : r.executed.Sublist (flatten (Item.placed path i items))
  skipped : ∀ g ∈ flatten (Item.placed path i items), g ∉ r.executed ↔ CutOff r.trace g.1

variable {steps} {path : List Nat} {i : Nat} {items rest : List (Item α)}
  {r : Run (List Nat × α)}

theorem Passes.place_of_mem (h : Passes path i items r) {e : Entry (List Nat × α)}
    (he : e ∈ r.trace) : ∃ j p, i ≤ j ∧ e.glyph.1 = path ++ j :: p :=
  Item.place_of_mem (h.executed.subset (List.mem_map_of_mem he))

theorem cutOff_cons {e : Entry (List Nat × α)} {es : List (Entry (List Nat × α))} {p : List Nat} :
    CutOff (e :: es) p ↔ (e.outcome = .ok .rollback ∧ Ahead e.glyph.1 p) ∨ CutOff es p := by
  simp [CutOff]

theorem cutOff_append {es es' : List (Entry (List Nat × α))} {p : List Nat} :
    CutOff (es ++ es') p ↔ CutOff es p ∨ CutOff es' p := by
  simp only [CutOff, List.mem_append, or_and_right, exists_or]

/-- Members further on cut nothing off from the members before them. -/
theorem Passes.not_cutOff_before (h : Passes path i items r) {j : Nat} (hj : j < i)
    (p : List Nat) : ¬ CutOff r.trace (path ++ j :: p) := by
  rintro ⟨e, he, -, hahead⟩
  obtain ⟨k, q, hk, hplace⟩ := h.place_of_mem he
  rw [hplace, ahead_append, ahead_cons] at hahead
  omega

/-- A block inside cuts nothing off from the members of the block around it. -/
theorem Passes.not_cutOff_outside (h : Passes (path ++ [i]) 0 items r) {j : Nat} (hj : j ≠ i)
    (p : List Nat) : ¬ CutOff r.trace (path ++ j :: p) := by
  rintro ⟨e, he, -, hahead⟩
  obtain ⟨k, q, -, hplace⟩ := h.place_of_mem he
  rw [hplace, List.append_assoc, ahead_append, List.singleton_append, ahead_cons] at hahead
  obtain ⟨hnil, -⟩ | ⟨rfl, -⟩ := hahead
  · simp at hnil
  · exact hj rfl

theorem Passes.not_executed_before (h : Passes path i items r) {g : List Nat × α} {j : Nat}
    {p : List Nat} (hg : g.1 = path ++ j :: p) (hj : j < i) : g ∉ r.executed := by
  intro hmem
  obtain ⟨k, q, hk, hplace⟩ := Item.place_of_mem (h.executed.subset hmem)
  rw [hg, List.append_cancel_left_eq, List.cons.injEq] at hplace
  omega

theorem Passes.not_executed_outside (h : Passes (path ++ [i]) 0 items r) {g : List Nat × α}
    {j : Nat} {p : List Nat} (hg : g.1 = path ++ j :: p) (hj : j ≠ i) : g ∉ r.executed := by
  intro hmem
  obtain ⟨k, q, -, hplace⟩ := Item.place_of_mem (h.executed.subset hmem)
  rw [hg, List.append_assoc, List.append_cancel_left_eq, List.singleton_append,
    List.cons.injEq] at hplace
  exact hj hplace.1

theorem Passes.nil (s : Store) : Passes path i ([] : List (Item α)) (done s) :=
  ⟨by simp [Run.executed, done], by simp⟩

/-- A glyph that leaves its block cuts off all members after it. -/
theorem Passes.leave (a : α) (rest : List (Item α)) (t : Store) :
    Passes path i (.glyph a :: rest) ⟨[⟨(path ++ [i], a), .ok .rollback, t⟩], t, none⟩ := by
  constructor
  · rw [placed_glyph, flatten_glyph]
    exact (List.nil_sublist _).cons_cons _
  · intro g hg
    rw [placed_glyph, flatten_glyph, List.mem_cons] at hg
    obtain rfl | hg := hg
    · have : ¬ Ahead (path ++ [i]) (path ++ [i]) := by
        rw [ahead_append, ahead_cons]
        simp [not_ahead_nil]
      simp [Run.executed, CutOff, this]
    · obtain ⟨j, p, hj, hp⟩ := Item.place_of_mem hg
      have hne : g ≠ (path ++ [i], a) := fun heq => place_ne_of_mem hg (congrArg Prod.fst heq)
      have hahead : Ahead (path ++ [i]) g.1 := ⟨path, i, j, p, rfl, hp, hj⟩
      simp [Run.executed, CutOff, hne, hahead]

/-- A glyph that does not leave its block is executed, and what becomes of the others is up to
them. -/
theorem Passes.glyph (h : Passes path (i + 1) rest r) (a : α) {o : Except Fault Answer}
    (ho : o ≠ .ok .rollback) (t : Store) :
    Passes path i (.glyph a :: rest) (r.after ⟨(path ++ [i], a), o, t⟩) := by
  have hexec : (r.after ⟨(path ++ [i], a), o, t⟩).executed = (path ++ [i], a) :: r.executed := rfl
  constructor
  · rw [placed_glyph, flatten_glyph, hexec]
    exact h.executed.cons_cons _
  · intro g hg
    rw [placed_glyph, flatten_glyph, List.mem_cons] at hg
    rw [hexec, after, cutOff_cons]
    obtain rfl | hg := hg
    · have := h.not_cutOff_before (Nat.lt_succ_self i) []
      simp [ho, this]
    · have hne : g ≠ (path ++ [i], a) := fun heq => place_ne_of_mem hg (congrArg Prod.fst heq)
      simp [ho, hne, h.skipped g hg]

/-- A block inside and the members after it have no part in each other's skipping. -/
theorem Passes.block (hin : Passes (path ++ [i]) 0 items r) (hf : r.fault = none)
    {k : Store → Run (List Nat × α)} (h : Passes path (i + 1) rest (k r.store)) :
    Passes path i (.block items :: rest) (r.andThen k) := by
  constructor
  · rw [placed_block, flatten_block, andThen_executed k hf]
    exact hin.executed.append h.executed
  · intro g hg
    rw [placed_block, flatten_block, List.mem_append] at hg
    rw [andThen_executed k hf, List.mem_append, not_or, andThen_trace k hf, cutOff_append]
    obtain hg | hg := hg
    · obtain ⟨j, p, -, hp⟩ := Item.place_of_mem hg
      rw [List.append_assoc, List.singleton_append] at hp
      have hcut := h.not_cutOff_before (Nat.lt_succ_self i) (j :: p)
      have hexec := h.not_executed_before hp (Nat.lt_succ_self i)
      rw [← hp] at hcut
      simp [hcut, hexec, hin.skipped g hg]
    · obtain ⟨j, p, hj, hp⟩ := Item.place_of_mem hg
      have hne : j ≠ i := by omega
      have hcut := hin.not_cutOff_outside hne p
      have hexec := hin.not_executed_outside hp hne
      rw [← hp] at hcut
      simp [hcut, hexec, h.skipped g hg]

theorem members_passes {limit : Nat}
    (hblock : ∀ path items s, LoopFree steps items →
      (block (fun g => steps g.2) limit (Item.placed path 0 items) s).fault = none →
      Passes path 0 items (block (fun g => steps g.2) limit (Item.placed path 0 items) s))
    (whole : List (Item (List Nat × α))) {s : Store} (h : LoopFree steps items)
    (hf : (members (fun g => steps g.2) (block (fun g => steps g.2) limit) whole
      (Item.placed path i items) s).fault = none) :
    Passes path i items (members (fun g => steps g.2) (block (fun g => steps g.2) limit) whole
      (Item.placed path i items) s) := by
  induction items, s using members_induction steps generalizing i with
  | nil s =>
    rw [placed_nil]
    exact .nil s
  | block items rest s ih =>
    obtain ⟨hitems, hrest⟩ := loopFree_block.mp h
    rw [placed_block, members] at hf ⊢
    obtain ⟨hf₁, hf₂⟩ := andThen_fault_eq_none hf
    exact (hblock _ items s hitems hf₁).block hf₁ (ih _ hrest hf₂)
  | fails g rest s f t hg => simp [members, hg] at hf
  | leaves g rest s t hg =>
    simp only [placed_glyph, members, hg]
    exact .leave g rest t
  | proceeds g rest s t hg ih =>
    simp only [placed_glyph, members, hg] at hf ⊢
    exact (ih (loopFree_glyph.mp h).2 hf).glyph g (by simp) t
  | repeats g rest s t hg ih =>
    exact absurd rfl (Step.performAll_ne_again (loopFree_glyph.mp h).1 hg)

theorem block_passes (limit : Nat) (path : List Nat) (items : List (Item α)) (s : Store)
    (h : LoopFree steps items)
    (hf : (block (fun g => steps g.2) limit (Item.placed path 0 items) s).fault = none) :
    Passes path 0 items (block (fun g => steps g.2) limit (Item.placed path 0 items) s) := by
  induction limit generalizing path items s with
  | zero => cases hf
  | succ limit ih =>
    unfold Run.block at hf ⊢
    cases hs : s.saveable with
    | error f =>
      rw [hs] at hf
      cases hf
    | ok =>
      rw [hs] at hf
      exact members_passes ih _ h hf

/-- **What a block without loops executes.** Its calls go no deeper than it is nested, so that no
limit beyond that makes a difference. A run that does not fail executes the glyphs in reading order,
each at most once, and skips exactly those that come, in some block around them, after a member that
was executed and answered with a rollback. -/
theorem loopFree_run (limit : Nat) (items : List (Item α)) (s : Store) (h : LoopFree steps items) :
    (∀ p ∈ calls steps limit items s, p.length < nesting items) ∧
      (nesting items ≤ limit →
        block steps limit items s = block steps (nesting items) items s) ∧
      (placed steps limit items s).relabel Prod.snd = block steps limit items s ∧
      ((block steps limit items s).fault = none →
        (block steps limit items s).executed.Sublist (flatten items) ∧
        (placed steps limit items s).executed.Sublist (flatten (Item.placed [] 0 items)) ∧
        ((placed steps limit items s).executed.map Prod.fst).Nodup ∧
        ∀ g ∈ flatten (Item.placed [] 0 items),
          g ∉ (placed steps limit items s).executed ↔
            CutOff (placed steps limit items s).trace g.1) := by
  have hcalls := calls_lt_nesting limit s h
  refine ⟨hcalls, fun hle => ?_, relabel_placed steps limit items s, fun hf => ?_⟩
  · exact (block_eq_of_calls hcalls hle (Nat.le_refl _)).symm
  · have hplaced := relabel_placed steps limit items s
    have hfault : (placed steps limit items s).fault = none := by rwa [← hplaced] at hf
    have hpasses := block_passes limit [] items s h hfault
    refine ⟨?_, hpasses.executed, (hpasses.executed.map _).nodup (nodup_places [] 0 items),
      hpasses.skipped⟩
    have hflat : flatten items = (flatten (Item.placed [] 0 items)).map Prod.snd := by
      rw [← flatten_relabel, relabel_snd_placed]
    rw [← hplaced, executed_relabel, hflat]
    exact hpasses.executed.map _

/-- A block inside that is left at its first glyph, a glyph that leaves the outer block, and a block
after it. -/
def leftTwice : List (Item (List Step)) :=
  [.block [.glyph [askFirst], .glyph [addFirst 5]], .glyph [addFirst (-1), askFirst],
    .block [.glyph [addFirst 7]]]

/-- The rollback of the inner block skips the glyph after it there, and that of the outer block the
last block. -/
theorem loopFree_run_leftTwice :
    (placed id 2 leftTwice ⟨[(1, [.int 0])]⟩).executed.map Prod.fst = [[0, 0], [1]] ∧
      ∀ g ∈ flatten (Item.placed [] 0 leftTwice),
        g ∉ (placed id 2 leftTwice ⟨[(1, [.int 0])]⟩).executed ↔
          CutOff (placed id 2 leftTwice ⟨[(1, [.int 0])]⟩).trace g.1 := by
  have hfree : LoopFree id leftTwice := by
    simp [LoopFree, leftTwice, addFirst, askFirst]
  have hfault : (block id 2 leftTwice ⟨[(1, [.int 0])]⟩).fault = none := by decide +kernel
  refine ⟨?_, ((loopFree_run 2 leftTwice _ hfree).2.2.2 hfault).2.2.2⟩
  simp only [placed, leftTwice, placed_block, placed_glyph, placed_nil, List.nil_append,
    List.cons_append]
  decide +kernel

end Run

end StrandScript
