import StrandScript.Proofs.BlockTree
import StrandScript.Run

/-!
# The tree of a program

The levels of a program count from one, so its tree takes in all its glyphs (`tree_cases`). It is
nested no deeper than the highest level (`most`).
-/

namespace StrandScript.Program

/-- The most that any member of a list has of something. -/
def most {α : Type} (f : α → Nat) (xs : List α) : Nat := (xs.map f).foldl max 0

variable (f : Glyph → Nat) {gs : List Glyph}

theorem foldl_max_le {ns : List Nat} {m n : Nat} (hm : m ≤ n) (h : ∀ k ∈ ns, k ≤ n) :
    ns.foldl max m ≤ n := by
  induction ns generalizing m with
  | nil => exact hm
  | cons k ns ih =>
    rw [List.forall_mem_cons] at h
    exact ih (max_le hm h.1) h.2

theorem le_foldl_max (ns : List Nat) (m : Nat) :
    m ≤ ns.foldl max m ∧ ∀ k ∈ ns, k ≤ ns.foldl max m := by
  induction ns generalizing m with
  | nil => simp
  | cons n ns ih =>
    obtain ⟨hstart, hns⟩ := ih (max m n)
    rw [List.foldl_cons, List.forall_mem_cons]
    exact ⟨by omega, by omega, hns⟩

theorem most_le {n : Nat} (h : ∀ g ∈ gs, f g ≤ n) : most f gs ≤ n :=
  foldl_max_le (Nat.zero_le n) (List.forall_mem_map.mpr h)

theorem le_most {g : Glyph} (h : g ∈ gs) : f g ≤ most f gs :=
  (le_foldl_max _ 0).2 _ (List.mem_map_of_mem h)

theorem foldl_max_mem (ns : List Nat) (m : Nat) :
    ns.foldl max m = m ∨ ns.foldl max m ∈ ns := by
  induction ns generalizing m with
  | nil => exact Or.inl rfl
  | cons n ns ih =>
    rw [List.foldl_cons, List.mem_cons]
    rcases ih (max m n) with h | h
    · rw [h]
      omega
    · exact Or.inr (Or.inr h)

/-- Some glyph has the most. -/
theorem exists_most (hne : gs ≠ []) : ∃ g ∈ gs, f g = most f gs := by
  rcases foldl_max_mem (gs.map f) 0 with h | h
  · obtain ⟨g, hg⟩ := List.exists_mem_of_ne_nil gs hne
    have := le_most f hg
    rw [most, h] at this
    exact ⟨g, hg, by rw [most, h]; omega⟩
  · exact List.mem_map.mp h

theorem number_glyph (gs : List Glyph) : (number gs).map (·.glyph) = gs := by
  unfold number
  rw [List.map_map]
  exact List.zipIdx_map_fst 0 gs

/-- The tree of a program whose levels count from one holds its glyphs in order, nested no deeper
than the highest level; or the limit was too low. -/
theorem tree_cases (depth : Nat) {gs : List Glyph} (hne : gs ≠ [])
    (hlevel : ∀ g ∈ gs, 1 ≤ g.level) :
    (∃ items, tree depth gs = .ok items ∧ (Item.flatten items).map (·.glyph.glyph) = gs ∧
        Item.nesting items ≤ most (·.level.toNat) gs) ∨
      tree depth gs = .error .tooDeep ∧ depth < gs.length + most (·.level.toNat) gs := by
  have hmem : ∀ n ∈ number gs, n.glyph ∈ gs := fun n hn => by
    have hn' : n.glyph ∈ (number gs).map (·.glyph) := List.mem_map_of_mem hn
    rwa [number_glyph] at hn'
  have hhigh : ∀ g ∈ gs, g.level ≤ most (·.level.toNat) gs := fun g hg => by
    have : g.level.toNat ≤ most (·.level.toNat) gs :=
      le_most (fun g => g.level.toNat) hg
    omega
  have hlen : (number gs).length = gs.length := by
    rw [← List.length_map (·.glyph), number_glyph]
  have hnum : number gs ≠ [] := fun he => hne (by rw [← number_glyph gs, he]; rfl)
  have hone : 1 ≤ most (·.level.toNat) gs := by
    obtain ⟨g, hg⟩ := List.exists_mem_of_ne_nil gs hne
    have := hlevel g hg
    have := hhigh g hg
    omega
  obtain ⟨items, rest, hgrow, hgrown⟩ | ⟨hgrow, hlt⟩ :=
    @Item.grow_cases _ (fun n : Numbered => n.glyph.level) depth 1 (most (·.level.toNat) gs)
      (number gs) hnum fun n hn => by
        have := hhigh n.glyph (hmem n hn)
        omega
  · -- No glyph is left over, since none has a level below one.
    obtain rfl : rest = [] := by
      cases rest with
      | nil => rfl
      | cons n rest =>
        have hlow := hgrown.stop n rfl
        have hn : n ∈ number gs := by
          rw [← hgrown.flatten]
          simp
        have := hlevel n.glyph (hmem n hn)
        omega
    obtain ⟨ls, hlink, hflat, hnest⟩ := Item.link_eq_ok 0 none hgrown.filled
    refine Or.inl ⟨ls, ?_, ?_, ?_⟩
    · unfold tree
      rw [hgrow]
      exact hlink
    · have hgs := hgrown.flatten
      rw [List.append_nil, ← hflat] at hgs
      rw [← number_glyph gs, ← hgs, List.map_map]
      rfl
    · have := hgrown.nesting
      omega
  · refine Or.inr ⟨?_, by omega⟩
    unfold tree
    rw [hgrow]
    rfl

end StrandScript.Program
