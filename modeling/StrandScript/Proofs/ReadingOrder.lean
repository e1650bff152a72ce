import StrandScript.Proofs.Outcome
import StrandScript.Strand

/-!
# The places of strands

The strands of a glyph are found in reading order: by rows from the top, each row from the left
(`strands_readsBefore`). So no two of them begin in one place, and all places have coordinates from
zero on and lie on a row of the glyph (`strands_pos`).
-/

namespace StrandScript

/-- Strict reading order: a row further up, or the same row further left. -/
def Pos.ReadsBefore (p q : Pos) : Prop := p.y < q.y ∨ p.y = q.y ∧ p.x < q.x

instance (p q : Pos) : Decidable (p.ReadsBefore q) := inferInstanceAs (Decidable (_ ∨ _))

theorem Pos.ReadsBefore.ne {p q : Pos} (h : p.ReadsBefore q) : p ≠ q := by
  rintro rfl
  unfold ReadsBefore at h
  omega

theorem Pos.ReadsBefore.asymm {p q : Pos} (h : p.ReadsBefore q) : ¬ q.ReadsBefore p := by
  unfold ReadsBefore at *
  omega

theorem zipIdx_pairwise {α : Type} (xs : List α) : xs.zipIdx.Pairwise fun a b => a.2 < b.2 := by
  have h : (xs.zipIdx.map Prod.snd).Pairwise (· < ·) := by
    rw [List.zipIdx_map_snd]
    exact List.pairwise_lt_range'
  exact List.pairwise_map.mp h

namespace Grid

theorem cells_readsBefore (g : Grid) : g.cells.Pairwise fun a b => a.1.ReadsBefore b.1 := by
  unfold cells
  rw [List.pairwise_flatMap]
  constructor
  · rintro ⟨r, y⟩ -
    rw [List.pairwise_map]
    refine (zipIdx_pairwise r).imp fun {a b} h => Or.inr ⟨rfl, ?_⟩
    exact Int.ofNat_lt.mpr h
  · refine (zipIdx_pairwise g).imp fun {a b} h => ?_
    intro p hp q hq
    obtain ⟨_, _, rfl⟩ := List.mem_map.mp hp
    obtain ⟨_, _, rfl⟩ := List.mem_map.mp hq
    exact Or.inl (Int.ofNat_lt.mpr h)

theorem cells_bounds {g : Grid} {a : Pos × Char} (h : a ∈ g.cells) :
    0 ≤ a.1.x ∧ 0 ≤ a.1.y ∧ a.1.y < g.length := by
  obtain ⟨⟨r, y⟩, hy, h⟩ := List.mem_flatMap.mp h
  obtain ⟨⟨c, x⟩, -, rfl⟩ := List.mem_map.mp h
  have hlt : y < g.length := by
    have := List.snd_lt_of_mem_zipIdx hy
    omega
  exact ⟨Int.natCast_nonneg x, Int.natCast_nonneg y, Int.ofNat_lt.mpr hlt⟩

theorem hookAt_pos {g : Grid} {p : Pos} {c : Char} {h : Hook} (hh : g.hookAt p c = .ok (some h)) :
    h.pos = p := by
  unfold hookAt at hh
  cases hs : Sign.ofChar? c with
  | none =>
    rw [hs] at hh
    cases hh
  | some s =>
    rw [hs] at hh
    simp only at hh
    split at hh
    · obtain ⟨ls, -, hh⟩ := Outcome.bind_eq_ok.mp hh
      split at hh
      · rename_i d
        obtain ⟨k, -, rfl⟩ := Option.map_eq_some_iff.mp (Except.ok.inj hh)
        rfl
      · cases hh
    · cases hh

/-- The hooks found at some places stand in places of these, in the same order. -/
theorem hooksAt_sublist {g : Grid} {cs : List (Pos × Char)} {hs : List Hook}
    (h : g.hooksAt cs = .ok hs) : (hs.map (·.pos)).Sublist (cs.map (·.1)) := by
  induction cs generalizing hs with
  | nil =>
    cases h
    exact .slnil
  | cons a cs ih =>
    obtain ⟨p, c⟩ := a
    obtain ⟨here, hhere, h⟩ := Outcome.bind_eq_ok.mp h
    obtain ⟨later, hlater, h⟩ := Outcome.bind_eq_ok.mp h
    cases h
    cases here with
    | none => exact (ih hlater).cons p
    | some k =>
      rw [Option.toList_some, List.singleton_append, List.map_cons, hookAt_pos hhere]
      exact (ih hlater).cons_cons p

end Grid

theorem Strand.ofHook_hook {limit : Nat} {primes : List Nat} {g : Grid} {h : Hook} {s : Strand}
    (hs : Strand.ofHook limit primes g h = .ok s) : s.hook = h := by
  obtain ⟨⟨cells, sums, stop⟩, -, hs⟩ := Outcome.bind_eq_ok.mp hs
  obtain ⟨m, -, hs⟩ := Outcome.bind_eq_ok.mp hs
  cases hs
  rfl

namespace Grid

variable {limit : Nat} {primes : List Nat} {g : Grid} {ss : List Strand}

/-- The strands of a glyph have its hooks, in the same order. -/
theorem strands_hooks (h : g.strands limit primes = .ok ss) :
    g.pad.hooks = .ok (ss.map (·.hook)) := by
  obtain ⟨hs, hhs, hss⟩ := Outcome.bind_eq_ok.mp h
  have hall : List.Forall₂ (fun k s => k = s.hook) hs ss :=
    (Outcome.mapM_eq_ok.mp hss).imp fun _ _ hk => (Strand.ofHook_hook hk).symm
  have heq : hs = ss.map (·.hook) := by
    rw [← List.forall₂_eq_eq_eq]
    exact List.forall₂_map_right_iff.mpr hall
  rw [hhs, heq]

/-- **The strands of a glyph begin in reading order**, each in a place of its own. -/
theorem strands_readsBefore (h : g.strands limit primes = .ok ss) :
    ss.Pairwise fun a b => a.hook.pos.ReadsBefore b.hook.pos := by
  have hsub := hooksAt_sublist (strands_hooks h)
  have hcells : (g.pad.cells.map (·.1)).Pairwise Pos.ReadsBefore :=
    List.pairwise_map.mpr (cells_readsBefore g.pad)
  have hhooks := List.pairwise_map.mp (hcells.sublist hsub)
  rwa [List.pairwise_map] at hhooks

theorem strands_pos (h : g.strands limit primes = .ok ss) {s : Strand} (hs : s ∈ ss) :
    0 ≤ s.hook.pos.x ∧ 0 ≤ s.hook.pos.y ∧ s.hook.pos.y < g.length := by
  have hmem : s.hook.pos ∈ (ss.map (·.hook)).map (·.pos) :=
    List.mem_map_of_mem (List.mem_map_of_mem hs)
  obtain ⟨a, ha, hp⟩ := List.mem_map.mp ((hooksAt_sublist (strands_hooks h)).subset hmem)
  have hlen : g.pad.length = g.length := List.length_map _
  rw [← hp, ← hlen]
  exact cells_bounds ha

end Grid

end StrandScript
