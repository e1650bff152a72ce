import StrandScript.Proofs.CanonicalTree
import StrandScript.Proofs.Skipping

/-!
# Where the links of a tree point

Linking tells every glyph of a tree its depth, the first glyph of its block and the glyph that
follows on the end of its block. Depth and first glyph are always right. The glyph that follows is
handed down from block to block, and a block that has passed one on to a block inside keeps it for
the members after that. So where a block stands before a member of the same block, what is said to
follow is overtaken: for a glyph that is this member, and for one inside with no more glyphs of the
block after its own one (`links_right_iff`).

* `Item.blockAt`: the block at the end of a path.
* `Item.afterBlock`: the glyphs that come after that block.
* `Item.overtaken`: whether what is said to follow a glyph is overtaken.
* `Item.linkMembers_getElem?`: one block linked, member by member.
* `Item.linked_at`: what a glyph is told, along the path down to it.
-/

namespace StrandScript.Item

variable {α ι : Type}

/-! ## Paths -/

/-- Whether an item is a block. -/
def isBlock : Item α → Bool
  | .glyph _ => false
  | .block _ => true

/-- The members of the block that is member number `k`. -/
def inside (k : Nat) (items : List (Item α)) : List (Item α) :=
  match items[k]? with
  | some (.block inner) => inner
  | _ => []

/-- The members of the block to which a path leads: the number of a member for each block on the
way. -/
def blockAt : List Nat → List (Item α) → List (Item α)
  | [], items => items
  | k :: path, items => blockAt path (inside k items)

/-- The glyphs that come after the end of the block at a path, in reading order. -/
def afterBlock : List Nat → List (Item α) → List α
  | [], _ => []
  | k :: path, items => afterBlock path (inside k items) ++ flatten (items.drop (k + 1))

/-- Whether a block stands before member number `i` of the block at a path, or in some block around
it before the member on the path, with no glyph of that block after the end of the block at the
path. -/
def overtaken : List Nat → Nat → List (Item α) → Bool
  | [], i, items => (items.take i).any isBlock
  | k :: path, i, items =>
    (items.take k).any isBlock && (afterBlock (k :: path) items).isEmpty ||
      overtaken path i (inside k items)

theorem inside_eq_nil {k : Nat} {items : List (Item α)}
    (h : ∀ inner, items[k]? ≠ some (.block inner)) :
    inside k items = [] := by
  unfold inside
  split
  · rename_i inner hk
    exact absurd hk (h inner)
  · rfl

theorem inside_of_block {k : Nat} {items inner : List (Item α)}
    (h : items[k]? = some (.block inner)) :
    inside k items = inner := by
  unfold inside
  rw [h]

theorem blockAt_nil (path : List Nat) : blockAt path ([] : List (Item α)) = [] := by
  induction path with
  | nil => rfl
  | cons k path ih => exact ih

/-- The glyphs of a block inside and all after it in the block around end the reading order. -/
theorem inside_suffix (k : Nat) (items : List (Item α)) :
    flatten (inside k items) ++ flatten (items.drop (k + 1)) <:+ flatten items := by
  induction items generalizing k with
  | nil => simp [inside]
  | cons i rest ih =>
    cases i with
    | glyph a =>
      rw [flatten_glyph]
      refine List.IsSuffix.trans ?_ (List.suffix_cons a _)
      cases k with
      | zero => simp [inside]
      | succ k => exact ih k
    | block inner =>
      rw [flatten_block]
      cases k with
      | zero => exact List.suffix_rfl
      | succ k => exact (ih k).trans (List.suffix_append _ _)

/-- The glyphs of the block at a path and those after its end stand last in the reading order, in
this order. -/
theorem blockAt_suffix (path : List Nat) (items : List (Item α)) :
    flatten (blockAt path items) ++ afterBlock path items <:+ flatten items := by
  induction path generalizing items with
  | nil => simp only [blockAt, afterBlock, List.append_nil, List.suffix_rfl]
  | cons k path ih =>
    rw [blockAt, afterBlock, ← List.append_assoc]
    obtain ⟨before, hbefore⟩ := ih (inside k items)
    refine List.IsSuffix.trans ⟨before, ?_⟩ (inside_suffix k items)
    rw [← hbefore, List.append_assoc, List.append_assoc, List.append_assoc]

/-- One step down a path: a block before the member on the path overtakes what follows, as long as
nothing comes after the block at the path. -/
theorem overtaken_cons (stale : Bool) {k : Nat} {items inner : List (Item α)}
    (hk : items[k]? = some (.block inner)) (path : List Nat) (i : Nat) :
    (overtaken (k :: path) i items || stale && (afterBlock (k :: path) items).isEmpty) =
      (overtaken path i inner || (((items.take k).any isBlock || stale) &&
        (flatten (items.drop (k + 1))).isEmpty) && (afterBlock path inner).isEmpty) := by
  have hempty : (afterBlock path inner ++ flatten (items.drop (k + 1))).isEmpty =
      ((afterBlock path inner).isEmpty && (flatten (items.drop (k + 1))).isEmpty) := by
    cases afterBlock path inner <;> rfl
  rw [overtaken, afterBlock, inside_of_block hk, hempty]
  cases (items.take k).any isBlock <;> cases stale <;> cases (afterBlock path inner).isEmpty <;>
    cases (flatten (items.drop (k + 1))).isEmpty <;> simp

/-! ## The members of a block -/

/-- The glyph that is said to follow when member number `k` of a block is linked, if `following` is
said to follow the block. -/
def told (following : Option α) : List (Item α) → Nat → Option α
  | [], _ => following
  | _ :: _, 0 => following
  | .glyph _ :: rest, k + 1 => told following rest k
  | .block _ :: rest, k + 1 => told ((flatten rest).head?.orElse fun _ => following) rest k

/-- Before the first block inside, what is said to follow is what follows the block. -/
theorem told_of_no_block {following : Option α} {items : List (Item α)} {k : Nat}
    (h : (items.take k).any isBlock = false) : told following items k = following := by
  fun_induction told following items k with
  | case1 => rfl
  | case2 => rfl
  | case3 following a rest k ih =>
    rw [List.take_succ_cons, List.any_cons, Bool.or_eq_false_iff] at h
    exact ih h.2
  | case4 following inner rest k ih =>
    rw [List.take_succ_cons, List.any_cons, Bool.or_eq_false_iff] at h
    cases h.1

/-- After a block inside, what is said to follow is a glyph of the block itself. -/
theorem told_of_block {following : Option α} {items : List (Item α)} {k : Nat} (hf : Filled items)
    (hk : k < items.length) (h : (items.take k).any isBlock = true) :
    ∃ x ∈ flatten items, told following items k = some x := by
  fun_induction told following items k with
  | case1 => cases hk
  | case2 => cases h
  | case3 following a rest k ih =>
    rw [List.take_succ_cons, List.any_cons, isBlock, Bool.false_or] at h
    obtain ⟨x, hx, htold⟩ := ih ((filled_glyph a rest).mp hf) (Nat.lt_of_succ_lt_succ hk) h
    exact ⟨x, by simp [hx], htold⟩
  | case4 following inner rest k ih =>
    obtain ⟨-, -, hrest⟩ := (filled_block inner rest).mp hf
    have hk : k < rest.length := Nat.lt_of_succ_lt_succ hk
    rw [flatten_block]
    cases hany : (rest.take k).any isBlock with
    | true =>
      obtain ⟨x, hx, htold⟩ := ih hrest hk hany
      exact ⟨x, List.mem_append_right _ hx, htold⟩
    | false =>
      have hne : rest ≠ [] := List.ne_nil_of_length_pos (Nat.zero_lt_of_lt hk)
      obtain ⟨x, xs, hxs⟩ := List.exists_cons_of_ne_nil (flatten_ne_nil hrest hne)
      refine ⟨x, by simp [hxs], ?_⟩
      rw [told_of_no_block hany, hxs]
      rfl

theorem linkMembers_glyph_eq_ok {f a : α} {depth : Int} {following : Option α}
    {rest : List (Item α)} {ls : List (Item (Linked α))}
    (h : linkMembers f depth following (.glyph a :: rest) = .ok ls) :
    ∃ later, linkMembers f depth following rest = .ok later ∧
      ls = .glyph ⟨a, f, depth, following⟩ :: later := by
  rw [linkMembers] at h
  obtain ⟨later, hlater, h⟩ := Outcome.bind_eq_ok.mp h
  exact ⟨later, hlater, (Except.ok.inj h).symm⟩

theorem linkMembers_block_eq_ok {f : α} {depth : Int} {following : Option α}
    {inner rest : List (Item α)} {ls : List (Item (Linked α))} (hf : Filled (.block inner :: rest))
    (h : linkMembers f depth following (.block inner :: rest) = .ok ls) :
    ∃ f' ls' later, (flatten inner).head? = some f' ∧
      linkMembers f' (depth + 1) ((flatten rest).head?.orElse fun _ => following) inner = .ok ls' ∧
      linkMembers f depth ((flatten rest).head?.orElse fun _ => following) rest = .ok later ∧
      ls = .block ls' :: later := by
  obtain ⟨hne, hinner, hrest⟩ := (filled_block inner rest).mp hf
  obtain ⟨f', fs, hf'⟩ := List.exists_cons_of_ne_nil (flatten_ne_nil hinner hne)
  rw [linkMembers, firstOf_eq_ok hrest, firstOf_eq_ok hinner, hf'] at h
  change (linkMembers f' (depth + 1) ((flatten rest).head?.orElse fun _ => following) inner >>=
    fun ls' =>
    linkMembers f depth ((flatten rest).head?.orElse fun _ => following) rest >>= fun later =>
    pure (.block ls' :: later)) = .ok ls at h
  obtain ⟨ls', hls', h⟩ := Outcome.bind_eq_ok.mp h
  obtain ⟨later, hlater, h⟩ := Outcome.bind_eq_ok.mp h
  exact ⟨f', ls', later, by rw [hf']; rfl, hls', hlater, (Except.ok.inj h).symm⟩

/-- Linking leaves the glyphs where they are. -/
theorem relabel_linkMembers {f : α} {depth : Int} {following : Option α} {items : List (Item α)}
    {ls : List (Item (Linked α))} (hf : Filled items)
    (h : linkMembers f depth following items = .ok ls) :
    relabel (·.glyph) ls = items := by
  induction items using flatten.induct generalizing f depth following ls with
  | case1 =>
    rw [linkMembers] at h
    cases h
    exact relabel_nil _
  | case2 a rest ih =>
    obtain ⟨later, hlater, rfl⟩ := linkMembers_glyph_eq_ok h
    rw [relabel_glyph, ih ((filled_glyph a rest).mp hf) hlater]
  | case3 inner rest ih ih' =>
    obtain ⟨-, hinner, hrest⟩ := (filled_block inner rest).mp hf
    obtain ⟨f', ls', later, -, hls', hlater, rfl⟩ := linkMembers_block_eq_ok hf h
    rw [relabel_block, ih hinner hls', ih' hrest hlater]

/-- **One block linked, member by member.** A glyph is told the first glyph of the block, the depth
and the glyph that is said to follow; a block inside is linked one deeper, and is followed by the
first glyph after it in the block, if there is any. -/
theorem linkMembers_getElem? {f : α} {depth : Int} {following : Option α} {items : List (Item α)}
    {ls : List (Item (Linked α))} (hf : Filled items)
    (h : linkMembers f depth following items = .ok ls) (k : Nat) :
    ls[k]? = none ∨
    (∃ a, items[k]? = some (.glyph a) ∧
      ls[k]? = some (.glyph ⟨a, f, depth, told following items k⟩)) ∨
    ∃ inner f' ls', items[k]? = some (.block inner) ∧ ls[k]? = some (.block ls') ∧ Filled inner ∧
      (flatten inner).head? = some f' ∧
      linkMembers f' (depth + 1)
        ((flatten (items.drop (k + 1))).head?.orElse fun _ => told following items k) inner =
          .ok ls' := by
  induction items generalizing following ls k with
  | nil =>
    rw [linkMembers] at h
    cases h
    exact Or.inl rfl
  | cons i rest ih =>
    cases i with
    | glyph a =>
      obtain ⟨later, hlater, rfl⟩ := linkMembers_glyph_eq_ok h
      cases k with
      | zero => exact Or.inr (Or.inl ⟨a, rfl, by simp [told]⟩)
      | succ k => exact ih ((filled_glyph a rest).mp hf) hlater k
    | block inner =>
      obtain ⟨-, hinner, hrest⟩ := (filled_block inner rest).mp hf
      obtain ⟨f', ls', later, hf', hls', hlater, rfl⟩ := linkMembers_block_eq_ok hf h
      cases k with
      | zero =>
        exact Or.inr (Or.inr ⟨inner, f', ls', rfl, rfl, hinner, hf', by simpa [told] using hls'⟩)
      | succ k => exact ih hrest hlater k

/-! ## What follows -/

/-- What is said to follow, before the glyphs `later` that really do: the first of them or, if it is
overtaken, a glyph that is none of them. -/
def Marks (key : α → ι) (stale : Bool) (following : Option α) (later : List α) : Prop :=
  match stale with
  | false => following = later.head?
  | true => ∃ x, following = some x ∧ key x ∉ later.map key

section Marks

variable {key : α → ι} {stale : Bool} {following : Option α} {later : List α}
    {items : List (Item α)}

theorem Marks.iff (h : Marks key stale following later) :
    following.map key = later.head?.map key ↔ stale = false := by
  cases stale with
  | false =>
    rw [show following = later.head? from h]
    exact iff_of_true rfl rfl
  | true =>
    obtain ⟨x, rfl, hx⟩ := h
    refine iff_of_false (fun heq => hx ?_) (by decide)
    rw [← List.head?_map, Option.map_some] at heq
    exact List.mem_of_mem_head? heq.symm

/-- What is said to follow at a member: a block before it overtakes what follows the block
around. -/
theorem Marks.told (h : Marks key stale following later) (hf : Filled items)
    (hkeys : ((flatten items ++ later).map key).Nodup) {k : Nat} (hk : k < items.length) :
    Marks key ((items.take k).any isBlock || stale) (told following items k) later := by
  cases hany : (items.take k).any isBlock with
  | false =>
    rw [told_of_no_block hany]
    exact h
  | true =>
    obtain ⟨x, hx, htold⟩ : ∃ x ∈ flatten items, Item.told following items k = some x :=
      told_of_block hf hk hany
    refine ⟨x, htold, fun hmem => ?_⟩
    rw [List.map_append, List.nodup_append] at hkeys
    exact hkeys.2.2 _ (List.mem_map_of_mem hx) _ hmem rfl

/-- What is said to follow a block inside, before the glyphs `more` of the block around it. -/
theorem Marks.inside (h : Marks key stale following later) (more : List α) :
    Marks key (stale && more.isEmpty) (more.head?.orElse fun _ => following) (more ++ later) := by
  cases more with
  | nil =>
    rw [List.isEmpty_nil, Bool.and_true]
    exact h
  | cons x more =>
    rw [List.isEmpty_cons, Bool.and_false]
    rfl

end Marks

/-- **What a glyph of a linked tree is told**, from what is said to follow the tree and the glyphs
that really do. The induction goes down the path to the glyph. -/
theorem linked_at {key : α → ι} {path : List Nat} {f : α} {depth : Int} {following : Option α}
    {later : List α} {stale : Bool} {items : List (Item α)} {ls : List (Item (Linked α))}
    (hf : Filled items) (hfirst : (flatten items).head? = some f)
    (h : linkMembers f depth following items = .ok ls)
    (hkeys : ((flatten items ++ later).map key).Nodup) (hmarks : Marks key stale following later)
    {i : Nat} {l : Linked α} (hl : (blockAt path ls)[i]? = some (.glyph l)) :
    l.depth = depth + path.length ∧ (flatten (blockAt path items)).head? = some l.first ∧
      (l.following.map key = (afterBlock path items ++ later).head?.map key ↔
        (overtaken path i items || stale && (afterBlock path items).isEmpty) = false) := by
  induction path generalizing f depth following later stale items ls with
  | nil =>
    obtain hnone | ⟨a, hi, hglyph⟩ | ⟨_, _, _, -, hblock, -⟩ := linkMembers_getElem? hf h i
    · cases hnone.symm.trans hl
    · cases hglyph.symm.trans hl
      obtain ⟨hlt, -⟩ := List.getElem?_eq_some_iff.mp hi
      refine ⟨by simp, hfirst, ?_⟩
      simpa [afterBlock, overtaken] using (hmarks.told hf hkeys hlt).iff
    · cases hblock.symm.trans hl
  | cons k path ih =>
    have hno : ∀ {x}, ls[k]? = x → (∀ inner, x ≠ some (.block inner)) →
        (blockAt (k :: path) ls)[i]? = none := fun hx hnot => by
      rw [blockAt, inside_eq_nil fun inner hinner => hnot inner (hx.symm.trans hinner), blockAt_nil]
      rfl
    obtain hnone | ⟨a, -, hglyph⟩ | ⟨inner, f', ls', hk, hblock, hinner, hf', hls'⟩ :=
      linkMembers_getElem? hf h k
    · cases (hno hnone (by simp)).symm.trans hl
    · cases (hno hglyph (by simp)).symm.trans hl
    · obtain ⟨hlt, -⟩ := List.getElem?_eq_some_iff.mp hk
      have hsuffix := (inside_suffix k items).sublist
      rw [inside_of_block hk] at hsuffix
      have hkeys' : ((flatten inner ++ (flatten (items.drop (k + 1)) ++ later)).map key).Nodup := by
        rw [← List.append_assoc]
        exact hkeys.sublist ((hsuffix.append (.refl later)).map key)
      rw [blockAt, inside_of_block hblock] at hl
      obtain ⟨hdepth, hfirst', hiff⟩ :=
        ih hinner hf' hls' hkeys' ((hmarks.told hf hkeys hlt).inside _) hl
      refine ⟨by rw [hdepth, List.length_cons]; omega, by rwa [blockAt, inside_of_block hk], ?_⟩
      rw [overtaken_cons stale hk, ← hiff, afterBlock, inside_of_block hk, List.append_assoc]

/-- What growing comes to, whatever the levels are. -/
theorem grown_of_grow {level : α → Int} {limit : Nat} {c : Int} {gs rest : List α}
    {items : List (Item α)} (h : grow level limit c gs = .ok (items, rest)) :
    Grown level c (height level c gs) gs items rest := by
  have hne : gs ≠ [] := by
    rintro rfl
    cases limit with
    | zero => simp [grow] at h
    | succ limit => simp [grow] at h
  obtain ⟨_, _, hgrow, hgrown⟩ | ⟨hdeep, -⟩ :=
    grow_cases limit c (height level c gs) gs hne fun x hx => lt_height hx
  · cases hgrow.symm.trans h
    exact hgrown
  · cases hdeep.symm.trans h

/-- A linked tree is empty, or its members are linked from its first glyph on. -/
theorem link_cases {depth : Int} {following : Option α} {items : List (Item α)}
    {ls : List (Item (Linked α))} (hf : Filled items) (h : link depth following items = .ok ls) :
    (items = [] ∧ ls = []) ∨
      ∃ f, (flatten items).head? = some f ∧ linkMembers f depth following items = .ok ls := by
  unfold link at h
  rw [firstOf_eq_ok hf] at h
  by_cases hne : items = []
  · subst hne
    rw [flatten_nil] at h
    exact Or.inl ⟨rfl, (Except.ok.inj h).symm⟩
  · obtain ⟨f, fs, hfirst⟩ := List.exists_cons_of_ne_nil (flatten_ne_nil hf hne)
    rw [hfirst] at h
    exact Or.inr ⟨f, by rw [hfirst]; rfl, h⟩

/-- **Where the links of a tree point.** A tree grown from glyphs that differ by a key is linked
without a fault, and its glyphs stay where they are. Each glyph is told the depth at which it
stands, and the first glyph in reading order of the block that it is a member of. What is said to
follow is the first glyph after the end of that block, or nothing when no glyph comes after it, if
and only if it is not overtaken: no block stands before the glyph in its own block, nor before the
blocks around it with no glyph left to follow in between. The glyphs of the block and those after
its end stand last in the reading order of the tree. -/
theorem links_right_iff {level : α → Int} {limit : Nat} {c : Int} {gs rest : List α}
    {items : List (Item α)} (key : α → ι) (h : grow level limit c gs = .ok (items, rest))
    (hkeys : (gs.map key).Nodup) :
    ∃ ls, link 0 none items = .ok ls ∧ relabel (·.glyph) ls = items ∧
      ∀ path i l, (blockAt path ls)[i]? = some (.glyph l) →
        l.depth = (path.length : Int) ∧ (flatten (blockAt path items)).head? = some l.first ∧
          flatten (blockAt path items) ++ afterBlock path items <:+ flatten items ∧
          (l.following.map key = (afterBlock path items).head?.map key ↔
            overtaken path i items = false) := by
  have hgrown := grown_of_grow h
  have hf := hgrown.filled
  obtain ⟨ls, hls, -⟩ := link_eq_ok 0 none hf
  refine ⟨ls, hls, ?_⟩
  obtain ⟨rfl, rfl⟩ | ⟨f, hfirst, hmembers⟩ := link_cases hf hls
  · refine ⟨relabel_nil _, fun path i l hl => ?_⟩
    rw [blockAt_nil] at hl
    cases hl
  · refine ⟨relabel_linkMembers hf hmembers, fun path i l hl => ?_⟩
    have hkeys' : ((flatten items ++ []).map key).Nodup := by
      rw [← hgrown.flatten, List.map_append, List.nodup_append] at hkeys
      rw [List.append_nil]
      exact hkeys.1
    have hmarks : Marks key false none ([] : List α) := rfl
    obtain ⟨hdepth, hblock, hiff⟩ := linked_at hf hfirst hmembers hkeys' hmarks hl
    refine ⟨by rw [hdepth, Int.zero_add], hblock, blockAt_suffix path items, ?_⟩
    rwa [List.append_nil, Bool.false_and, Bool.or_false] at hiff

/-- Two blocks side by side in one, with a glyph between them and nothing after. -/
theorem links_right_iff_two_blocks :
    grow Prod.snd 9 1 [((0 : Nat), (1 : Int)), (1, 2), (2, 3), (3, 1), (4, 2)] =
        .ok ([.glyph (0, 1), .block [.glyph (1, 2), .block [.glyph (2, 3)]], .glyph (3, 1),
          .block [.glyph (4, 2)]], []) ∧
      ([((0 : Nat), (1 : Int)), (1, 2), (2, 3), (3, 1), (4, 2)].map Prod.fst).Nodup ∧
      ∃ ls, link 0 none [.glyph ((0 : Nat), (1 : Int)),
        .block [.glyph (1, 2), .block [.glyph (2, 3)]],
          .glyph (3, 1), .block [.glyph (4, 2)]] = .ok ls ∧
        relabel (·.glyph) ls = [.glyph (0, 1), .block [.glyph (1, 2), .block [.glyph (2, 3)]],
          .glyph (3, 1), .block [.glyph (4, 2)]] ∧
        (∀ l, (blockAt [1, 1] ls)[0]? = some (.glyph l) → l.following.map Prod.fst = some 3) ∧
        ∀ l, (blockAt [3] ls)[0]? = some (.glyph l) → l.following.map Prod.fst ≠ none := by
  have hgrow : grow Prod.snd 9 1 [((0 : Nat), (1 : Int)), (1, 2), (2, 3), (3, 1), (4, 2)] =
      .ok ([.glyph (0, 1), .block [.glyph (1, 2), .block [.glyph (2, 3)]], .glyph (3, 1),
        .block [.glyph (4, 2)]], []) := by rfl
  have hkeys : ([((0 : Nat), (1 : Int)), (1, 2), (2, 3), (3, 1), (4, 2)].map Prod.fst).Nodup := by
    decide
  obtain ⟨ls, hls, hitems, hlinks⟩ := links_right_iff Prod.fst hgrow hkeys
  refine ⟨hgrow, hkeys, ls, hls, hitems, fun l hl => ?_, fun l hl hright => ?_⟩
  · rw [(hlinks [1, 1] 0 l hl).2.2.2.mpr (by simp [overtaken, afterBlock, inside, isBlock])]
    simp [afterBlock, inside]
  · have hover := (hlinks [3] 0 l hl).2.2.2.mp (by simpa [afterBlock, inside] using hright)
    simp [overtaken, afterBlock, inside, isBlock] at hover

/-- A glyph after a block in the block of the whole program, which nothing follows, is said to be
followed by itself. -/
theorem following_overtaken :
    grow Prod.snd 9 1 [((0 : Nat), (1 : Int)), (1, 2), (2, 1)] =
        .ok ([.glyph (0, 1), .block [.glyph (1, 2)], .glyph (2, 1)], []) ∧
      link 0 none [.glyph ((0 : Nat), (1 : Int)), .block [.glyph (1, 2)], .glyph (2, 1)] =
        .ok [.glyph ⟨(0, 1), (0, 1), 0, none⟩, .block [.glyph ⟨(1, 2), (1, 2), 1, some (2, 1)⟩],
          .glyph ⟨(2, 1), (0, 1), 0, some (2, 1)⟩] := by
  constructor
  · rfl
  · simp [link, linkMembers, firstOf, first, bind, Except.bind, Except.map, pure, Except.pure]

end StrandScript.Item
