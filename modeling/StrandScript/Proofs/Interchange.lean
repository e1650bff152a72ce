import StrandScript.Proofs.Corners
import StrandScript.Proofs.Skipping

/-!
# Programs with their corners interchanged

The tree of a program depends on its glyphs through their levels, and a run through their steps. So
other glyphs with the same levels and steps make the same tree (`Item.grow_relabel`,
`Item.link_relabel`) and run alike (`Program.runGlyphs_curved`), and texts that differ in the forms
of their corners only are read and run alike (`corners_interchange`).
-/

namespace StrandScript

/-! ## Trees of other glyphs -/

namespace Item

variable {α β : Type} (f : α → β)

/-- A linked glyph with all glyphs that it names exchanged for others. -/
def Linked.relabel (l : Linked α) : Linked β := ⟨f l.glyph, f l.first, l.depth, l.following.map f⟩

theorem growOn_relabel {level : β → Int} {limit : Nat} {c : Int} {rest : List α} {item : Item α}
    {item' : Item β} (hitem : ∀ items, relabel f (item :: items) = item' :: relabel f items)
    (h : grow level limit c (rest.map f) =
      (grow (fun a => level (f a)) limit c rest).map fun (items, rest) =>
        (relabel f items, rest.map f)) :
    growOn level limit c item' (rest.map f) =
      (growOn (fun a => level (f a)) limit c item rest).map fun (items, rest) =>
        (relabel f items, rest.map f) := by
  unfold growOn
  rw [List.isEmpty_map, h]
  split
  · simp [Except.map, hitem]
  · cases grow (fun a => level (f a)) limit c rest with
    | error e => rfl
    | ok p => simp [Except.map, hitem]

/-- **Glyphs exchanged for others of the same levels make the same tree.** -/
theorem grow_relabel (level : β → Int) (limit : Nat) (c : Int) (gs : List α) :
    grow level limit c (gs.map f) =
      (grow (fun a => level (f a)) limit c gs).map fun (items, rest) =>
        (relabel f items, rest.map f) := by
  induction limit generalizing c gs with
  | zero => rfl
  | succ limit ih =>
    cases gs with
    | nil => rfl
    | cons g gs =>
      rw [List.map_cons]
      rcases lt_trichotomy (level (f g)) c with h | h | h
      · have hstop : grow (fun a => level (f a)) (limit + 1) c (g :: gs) = _ := grow_stop gs h
        rw [grow_stop _ h, hstop]
        simp [Except.map]
      · have hglyph : grow (fun a => level (f a)) (limit + 1) c (g :: gs) = _ := grow_glyph gs h
        rw [grow_glyph _ h, hglyph]
        exact growOn_relabel f (fun items => relabel_glyph f g items) (ih c gs)
      · have hinner := ih (c + 1) (g :: gs)
        cases hg : grow (fun a => level (f a)) limit (c + 1) (g :: gs) with
        | error e =>
          have herror : grow (fun a => level (f a)) (limit + 1) c (g :: gs) = _ :=
            grow_block_error h hg
          rw [hg] at hinner
          rw [grow_block_error h hinner, herror]
          rfl
        | ok p =>
          obtain ⟨items, rest⟩ := p
          have hblock : grow (fun a => level (f a)) (limit + 1) c (g :: gs) = _ := grow_block h hg
          rw [hg] at hinner
          rw [grow_block h hinner, hblock]
          exact growOn_relabel f (fun more => relabel_block f items more) (ih c rest)

theorem firstOf_block_cons (i : Item α) (is rest : List (Item α)) :
    firstOf (.block (i :: is) :: rest) = firstOf (i :: is) := by
  simp [firstOf, first]

theorem firstOf_relabel (items : List (Item α)) :
    firstOf (relabel f items) = (firstOf items).map (·.map f) := by
  induction items using flatten.induct with
  | case1 => simp [firstOf, Except.map]
  | case2 a rest _ => simp [firstOf, first, Except.map]
  | case3 items rest ih _ =>
    rw [relabel_block]
    cases items with
    | nil => simp [firstOf, first, Except.map]
    | cons i is =>
      obtain ⟨j, js, hj⟩ : ∃ j js, relabel f (i :: is) = j :: js := by
        cases i with
        | glyph a => exact ⟨_, _, relabel_glyph f a is⟩
        | block items => exact ⟨_, _, relabel_block f items is⟩
      rw [firstOf_block_cons, ← ih, hj, firstOf_block_cons]

theorem linkMembers_relabel (a : α) (depth : Int) (following : Option α) (items : List (Item α)) :
    linkMembers (f a) depth (following.map f) (relabel f items) =
      (linkMembers a depth following items).map (relabel (Linked.relabel f)) := by
  induction items using flatten.induct generalizing a depth following with
  | case1 => simp [linkMembers, Except.map]
  | case2 b rest ih =>
    rw [relabel_glyph, linkMembers, linkMembers]
    refine Outcome.bind_map (ih a depth following) fun later => ?_
    simp [pure, Except.pure, Except.map, Linked.relabel]
  | case3 items rest ih ih' =>
    rw [relabel_block, linkMembers, linkMembers]
    refine Outcome.bind_map (firstOf_relabel f rest) fun next => ?_
    have hnext : ((next.map f).orElse fun _ => following.map f) =
        (next.orElse fun _ => following).map f := by cases next <;> rfl
    simp only [hnext]
    refine Outcome.bind_map (firstOf_relabel f items) fun first => ?_
    cases first with
    | none =>
      refine Outcome.bind_map (x := .ok []) (φ := relabel (Linked.relabel f)) (by simp [Except.map])
        fun inner => ?_
      refine Outcome.bind_map (ih' a depth _) fun later => ?_
      simp [pure, Except.pure, Except.map]
    | some b =>
      refine Outcome.bind_map (ih b (depth + 1) _) fun inner => ?_
      refine Outcome.bind_map (ih' a depth _) fun later => ?_
      simp [pure, Except.pure, Except.map]

/-- Linking a tree of other glyphs names the other glyphs. -/
theorem link_relabel (depth : Int) (following : Option α) (items : List (Item α)) :
    link depth (following.map f) (relabel f items) =
      (link depth following items).map (relabel (Linked.relabel f)) := by
  refine Outcome.bind_map (firstOf_relabel f items) fun first => ?_
  cases first with
  | none => simp [Except.map]
  | some a => exact linkMembers_relabel f a depth following items

end Item

/-! ## Runs with other corners -/

theorem Token.step_curved (t : Token) : t.curved.step = t.step := by
  cases t with
  | data d =>
    have haction : (d.action.map Strand.curved).bind Strand.act = d.action.bind Strand.act := by
      cases d.action <;> rfl
    change d.curved.step = d.step
    simp only [DataToken.step, DataToken.curved, haction]
    rfl
  | question q => rfl

namespace Program

/-- A numbered glyph with its corners made curved. -/
def Numbered.curved (n : Numbered) : Numbered := ⟨n.id, n.glyph.curved⟩

theorem number_curved (gs : List Glyph) :
    number (gs.map Glyph.curved) = (number gs).map Numbered.curved := by
  unfold number
  rw [List.zipIdx_map, List.map_map, List.map_map]
  rfl

theorem tree_curved (limit : Nat) (gs : List Glyph) :
    tree limit (gs.map Glyph.curved) =
      (tree limit gs).map (Item.relabel (Item.Linked.relabel Numbered.curved)) := by
  unfold tree
  rw [number_curved]
  exact Outcome.bind_map (Item.grow_relabel Numbered.curved _ limit 1 (number gs)) fun p =>
    Item.link_relabel Numbered.curved 0 none p.1

theorem initialStore_curved (gs : List Glyph) :
    initialStore (gs.map Glyph.curved) = initialStore gs := by
  have hsize : ∀ g : Glyph, g.curved.listSize = g.listSize := fun g => List.length_map _
  unfold initialStore
  rw [List.map_map]
  simp only [Function.comp_def, hsize]

/-- **Glyphs run alike whatever form their corners have.** -/
theorem runGlyphs_curved (limit : Nat) (gs : List Glyph) :
    runGlyphs limit (gs.map Glyph.curved) =
      (runGlyphs limit gs).relabel (Item.Linked.relabel Numbered.curved) := by
  unfold runGlyphs
  rw [tree_curved, initialStore_curved]
  cases tree limit gs with
  | error f => rfl
  | ok items =>
    have hsteps : ∀ l, steps (Item.Linked.relabel Numbered.curved l) = steps l := fun l => by
      change (l.glyph.glyph.tokens.map Token.curved).map Token.step = _
      rw [List.map_map]
      exact List.map_congr_left fun t _ => t.step_curved
    have hrun := Run.block_relabel steps (Item.Linked.relabel Numbered.curved) limit items
      (initialStore gs)
    simp only [hsteps] at hrun
    exact hrun

end Program

/-- **Curved and sharp corners are interchangeable.** Texts that differ in the forms of their
corners only fail with the same fault, or are read as glyphs that are equal but for the forms of the
corners in their rows and in the cells of their strands. When these are run, within whatever limit,
the same glyphs are executed, with the same answers and stores, and the run ends with the same fault
if any. -/
theorem corners_interchange (limit : Nat) (text text' : String)
    (h : List.Forall₂ Sign.Twin text.toList text'.toList) :
    (Program.parseWithin limit text).map (·.map Glyph.curved) =
        (Program.parseWithin limit text').map (·.map Glyph.curved) ∧
      ∀ gs gs', Program.parseWithin limit text = .ok gs →
        Program.parseWithin limit text' = .ok gs' →
        ∀ depth, (Program.runGlyphs depth gs).relabel
            (Item.Linked.relabel Program.Numbered.curved) =
          (Program.runGlyphs depth gs').relabel (Item.Linked.relabel Program.Numbered.curved) := by
  have hparse := Program.parseWithin_twins limit h
  refine ⟨hparse, fun gs gs' hgs hgs' depth => ?_⟩
  rw [hgs, hgs'] at hparse
  have hcurved : gs.map Glyph.curved = gs'.map Glyph.curved := Except.ok.inj hparse
  rw [← Program.runGlyphs_curved, ← Program.runGlyphs_curved, hcurved]

/-- The rows of a strand with three corners, of the given forms. -/
def bentRows (first second third : Char) : Grid :=
  [[' ', first, '─', second], [' ', ' ', ' ', '│'], [' ', ' ', ' ', third, '─', ' ', ' ']]

/-- The strand drawn with curved and with sharp corners. The rows differ, and both runs leave its
value, four, in the first list. -/
theorem corners_interchange_bends : ∃ gs gs',
    Program.parseWithin 9 "╵╰─╮\n   │\n   ╰─ ╷" = .ok gs ∧
    Program.parseWithin 9 "╵└─┐\n   │\n   └─ ╷" = .ok gs' ∧
    gs.map (·.rows) = [bentRows '╰' '╮' '╰'] ∧ gs'.map (·.rows) = [bentRows '└' '┐' '└'] ∧
    gs.map Glyph.curved = gs'.map Glyph.curved ∧
    (Program.runGlyphs 3 gs).store.lists = [(1, [.int 4]), (2, []), (3, [])] ∧
    (Program.runGlyphs 3 gs').store.lists = [(1, [.int 4]), (2, []), (3, [])] := by
  obtain ⟨gs, items, hgs, htree, hrows, hlists⟩ : ∃ gs items,
      Program.parseWithin 9 "╵╰─╮\n   │\n   ╰─ ╷" = .ok gs ∧ Program.tree 3 gs = .ok items ∧
      gs.map (·.rows) = [bentRows '╰' '╮' '╰'] ∧
      (Run.block Program.steps 3 items (Program.initialStore gs)).store.lists =
        [(1, [.int 4]), (2, []), (3, [])] :=
    ⟨_, _, by conv_lhs => cbv, by conv_lhs => cbv, by rfl, by rfl⟩
  rw [← Program.runGlyphs_of_tree htree] at hlists
  have hsharp : (Program.parseWithin 9 "╵└─┐\n   │\n   └─ ╷").map (fun gs => gs.map (·.rows)) =
      .ok [bentRows '└' '┐' '└'] := by cbv
  obtain ⟨gs', hgs', hrows'⟩ := Outcome.map_eq_ok.mp hsharp
  obtain ⟨hread, hrun⟩ :=
    corners_interchange 9 "╵╰─╮\n   │\n   ╰─ ╷" "╵└─┐\n   │\n   └─ ╷" (by decide)
  rw [hgs, hgs'] at hread
  have hstore := congrArg Run.store (hrun gs gs' hgs hgs' 3)
  simp only [Run.relabel] at hstore
  exact ⟨gs, gs', hgs, hgs', hrows, hrows', Except.ok.inj hread, hlists, hstore ▸ hlists⟩

end StrandScript
