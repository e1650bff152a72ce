import Mathlib.Data.List.Perm.Basic
import Mathlib.Data.List.Nodup
import StrandScript.Glyph.Location
import StrandScript.Proofs.Outcome
import StrandScript.Proofs.ReadingOrder

/-!
# Opening and closing signs

* `Location.ofSigns_eq_ok`: the locations that are found have all the signs.
* `Grid.one_le_level`: levels count from one.
* `Location.ofSigns_eq`: locations are found from their signs when these tell them apart.
-/

namespace StrandScript

theorem Pos.rowMajor_antisymm {p q : Pos} (h : p.rowMajor q = true) (h' : q.rowMajor p = true) :
    p = q := by
  obtain ⟨px, py⟩ := p
  obtain ⟨qx, qy⟩ := q
  simp only [rowMajor, Bool.or_eq_true, Bool.and_eq_true, decide_eq_true_eq, beq_iff_eq] at h h'
  rw [Pos.mk.injEq]
  omega

namespace Location

theorem mem_of_closest {e : Pos} {os : List Opening} {o : Opening} (h : closest e os = some o) :
    o ∈ os := by
  induction os with
  | nil => cases h
  | cons a os ih =>
    unfold closest at h
    split at h
    · cases h
      exact List.mem_cons_self
    · rename_i b hb
      split at h
      · cases h
        exact List.mem_cons_of_mem _ (ih hb)
      · cases h
        exact List.mem_cons_self

/-- The opening sign of a location. -/
def opening (l : Location) : Opening := ⟨l.start, l.level⟩

/-- The opening sign lies above and left of the closing sign. -/
def Upright (l : Location) : Prop := l.start.x < l.stop.x ∧ l.start.y < l.stop.y

/-- The locations found have the closing signs in turn, and the opening signs that are not left. -/
theorem pairUp_eq_ok {os rest : List Opening} {es : List Pos} {ls : List Location}
    (h : pairUp os es = .ok (ls, rest)) :
    ls.map (·.stop) = es ∧ (ls.map opening ++ rest).Perm os ∧ ∀ l ∈ ls, l.Upright := by
  induction es generalizing os ls with
  | nil =>
    cases h
    exact ⟨rfl, .refl _, fun l hl => (List.not_mem_nil hl).elim⟩
  | cons e es ih =>
    unfold pairUp at h
    split at h
    · cases h
    · rename_i o ho
      obtain ⟨⟨ls', rest'⟩, hp, h⟩ := Outcome.bind_eq_ok.mp h
      cases h
      obtain ⟨hstop, hperm, hup⟩ := ih hp
      obtain ⟨hmem, hcand⟩ := List.mem_filter.mp (mem_of_closest ho)
      simp only [Bool.and_eq_true, decide_eq_true_eq] at hcand
      refine ⟨by rw [List.map_cons, hstop], ?_, List.forall_mem_cons.mpr ⟨hcand.1, hup⟩⟩
      exact (hperm.cons o).trans (List.perm_cons_erase hmem).symm

/-- The locations found have all the signs. -/
theorem ofSigns_eq_ok {os : List Opening} {es : List Pos} {ls : List Location}
    (h : ofSigns os es = .ok ls) :
    os.Perm (ls.map opening) ∧ es.Perm (ls.map (·.stop)) ∧ ∀ l ∈ ls, l.Upright := by
  obtain ⟨⟨ls', rest⟩, hp, h⟩ := Outcome.bind_eq_ok.mp h
  cases rest with
  | cons o rest => cases h
  | nil =>
    cases h
    obtain ⟨rfl, hperm, hup⟩ := pairUp_eq_ok hp
    have hsort := List.mergeSort_perm ls' fun a b => Pos.rowMajor a.start b.start
    rw [List.append_nil] at hperm
    exact ⟨hperm.symm.trans (hsort.symm.map _), hsort.symm.map _,
      fun l hl => hup l (hsort.subset hl)⟩

/-! ## Locations told apart -/

/-- While `l'` is still open, the closing sign of `l` takes the opening sign of `l`: that of `l'`
does not lie inside `l`, and if it could be taken, then that of `l` lies between. -/
def Clear (l l' : Location) : Prop :=
  within l.start l.stop l'.start = false ∧
    (l'.start.x < l.stop.x → l'.start.y < l.stop.y → within l'.start l.stop l.start = true)

/-- Two locations that their signs tell apart: they close in different places, and the one that
closes first is clear of the other. -/
def Apart (l l' : Location) : Prop :=
  l.stop ≠ l'.stop ∧ (l.stop.ReadsBefore l'.stop → l.Clear l') ∧
    (l'.stop.ReadsBefore l.stop → l'.Clear l)

theorem Apart.symm {l l' : Location} (h : l.Apart l') : l'.Apart l := ⟨h.1.symm, h.2.2, h.2.1⟩

theorem closest_eq_none {e : Pos} {os : List Opening} : closest e os = none ↔ os = [] := by
  cases os with
  | nil => simp [closest]
  | cons o os =>
    simp only [reduceCtorEq, iff_false]
    unfold closest
    split
    · exact Option.some_ne_none o
    · split <;> exact Option.some_ne_none _

theorem closest_eq {e : Pos} {a : Opening} {os : List Opening} (hne : os ≠ [])
    (h : ∀ o ∈ os, o = a) : closest e os = some a := by
  cases hc : closest e os with
  | some o => rw [h o (mem_of_closest hc)]
  | none => exact absurd (closest_eq_none.mp hc) hne

theorem Upright.within_start {l : Location} (h : l.Upright) :
    within l.start l.stop l.start = true := by
  unfold Upright at h
  simp only [within, Bool.and_eq_true, decide_eq_true_eq]
  omega

theorem Clear.opening_ne {l l' : Location} (h : l.Clear l') (hl : l.Upright) :
    l'.opening ≠ l.opening := by
  intro he
  have hstart : l'.start = l.start := congrArg Opening.pos he
  have hout := h.1
  rw [hstart, hl.within_start] at hout
  cases hout

/-- The opening signs that a closing sign can take: those above and left of it with no other one in
between. -/
theorem mem_candidates_open {e : Pos} {os : List Opening} {o : Opening} :
    o ∈ candidates os e ↔ o ∈ os ∧ (o.pos.x < e.x ∧ o.pos.y < e.y) ∧
      ∀ b ∈ os, b ≠ o → within o.pos e b.pos = false := by
  have hout : ∀ b : Opening, ¬ (within o.pos e b.pos = true ∧ (b != o) = true) ↔
      (b ≠ o → within o.pos e b.pos = false) := fun b => by
    by_cases hb : b = o <;> simp [hb]
  rw [candidates, List.mem_filter]
  simp only [Bool.and_eq_true, decide_eq_true_eq, Bool.not_eq_true', List.any_eq_false, hout]

/-- The opening signs that a closing sign can take, while those of some locations are open. -/
theorem mem_candidates_of_perm {e : Pos} {ls : List Location} {os : List Opening}
    (hos : os.Perm (ls.map opening)) (o : Opening) :
    o ∈ candidates os e ↔ (∃ l ∈ ls, l.opening = o) ∧ (o.pos.x < e.x ∧ o.pos.y < e.y) ∧
      ∀ k ∈ ls, k.opening ≠ o → within o.pos e k.start = false := by
  rw [mem_candidates_open, hos.mem_iff, List.mem_map]
  simp only [hos.mem_iff]
  rw [List.forall_mem_map]
  rfl

/-- The closing sign of a location can take its own opening sign and no other one. -/
theorem mem_candidates {l : Location} {ls : List Location} {os : List Opening} (hl : l.Upright)
    (hclear : ∀ l' ∈ ls, l.Clear l') (hos : os.Perm ((l :: ls).map opening)) (o : Opening) :
    o ∈ candidates os l.stop ↔ o = l.opening := by
  rw [mem_candidates_of_perm hos, List.exists_mem_cons_iff, List.forall_mem_cons]
  constructor
  · rintro ⟨rfl | ⟨l', hl', rfl⟩, ⟨hx, hy⟩, hown, -⟩
    · rfl
    · have hwithin := (hclear l' hl').2 hx hy
      have hout := hown ((hclear l' hl').opening_ne hl).symm
      exact absurd hwithin (Bool.eq_false_iff.mp hout)
  · rintro rfl
    exact ⟨Or.inl rfl, hl, fun h => absurd rfl h, fun k hk _ => (hclear k hk).1⟩

/-- A location is found first if its closing sign takes its opening sign. -/
theorem pairUp_cons_eq_ok {l : Location} {ls : List Location} {os rest : List Opening}
    {es : List Pos} :
    pairUp os (l.stop :: es) = .ok (l :: ls, rest) ↔
      closest l.stop (candidates os l.stop) = some l.opening ∧
        pairUp (os.erase l.opening) es = .ok (ls, rest) := by
  obtain ⟨start, stop, level⟩ := l
  rw [pairUp]
  cases hc : closest stop (candidates os stop) with
  | none => simp
  | some o =>
    constructor
    · intro h
      obtain ⟨⟨ls', rest'⟩, hp, h⟩ := Outcome.bind_eq_ok.mp h
      cases h
      exact ⟨rfl, hp⟩
    · rintro ⟨ho, hp⟩
      cases ho
      exact Outcome.bind_eq_ok.mpr ⟨_, hp, rfl⟩

theorem erase_opening_perm {l : Location} {ls : List Location} {os : List Opening}
    (hos : os.Perm ((l :: ls).map opening)) : (os.erase l.opening).Perm (ls.map opening) := by
  have := hos.erase l.opening
  rwa [List.map_cons, List.erase_cons_head] at this

/-- Closing signs take their own opening signs, one after the other. -/
theorem pairUp_eq {ls : List Location} {os : List Opening} (hup : ∀ l ∈ ls, l.Upright)
    (hclear : ls.Pairwise Clear) (hos : os.Perm (ls.map opening)) :
    pairUp os (ls.map (·.stop)) = .ok (ls, []) := by
  induction ls generalizing os with
  | nil =>
    obtain rfl := hos.eq_nil
    rfl
  | cons l ls ih =>
    rw [List.forall_mem_cons] at hup
    rw [List.pairwise_cons] at hclear
    have hcand := mem_candidates hup.1 hclear.1 hos
    have hclosest : closest l.stop (candidates os l.stop) = some l.opening :=
      closest_eq (List.ne_nil_of_mem ((hcand _).mpr rfl)) fun o ho => (hcand o).mp ho
    exact pairUp_cons_eq_ok.mpr ⟨hclosest, ih hup.2 hclear.2 (erase_opening_perm hos)⟩

theorem exists_perm_of_map_perm {α β : Type} {f : α → β} {as : List α} {bs : List β}
    (h : bs.Perm (as.map f)) : ∃ as' : List α, as'.Perm as ∧ as'.map f = bs := by
  have hall : List.Forall₂ (fun b a => b = f a) (as.map f) as :=
    List.forall₂_map_left_iff.mpr (List.forall₂_same.mpr fun _ _ => rfl)
  obtain ⟨as', has', hperm⟩ := List.perm_comp_forall₂ h hall
  refine ⟨as', hperm, ?_⟩
  rw [← List.forall₂_eq_eq_eq, List.forall₂_map_left_iff]
  exact has'.flip.imp fun _ _ hab => hab.symm

theorem sorted_rowMajor (ls : List Location) :
    (ls.mergeSort fun a b => Pos.rowMajor a.start b.start).Pairwise
      fun a b => Pos.rowMajor a.start b.start := by
  apply List.pairwise_mergeSort
  · intro a b c hab hbc
    simp only [Pos.rowMajor, Bool.or_eq_true, Bool.and_eq_true, decide_eq_true_eq, beq_iff_eq] at *
    omega
  · intro a b
    simp only [Pos.rowMajor, Bool.or_eq_true, Bool.and_eq_true, decide_eq_true_eq, beq_iff_eq]
    omega

/-- Locations in any order are sorted by their opening signs. -/
theorem mergeSort_start_eq {ls ls' : List Location} (hperm : ls'.Perm ls)
    (hstart : ls.Pairwise fun l l' => l.start.ReadsBefore l'.start) :
    (ls'.mergeSort fun a b => Pos.rowMajor a.start b.start) = ls := by
  have hnodup : (ls.map (·.start)).Nodup :=
    List.pairwise_map.mpr (hstart.imp fun hab => hab.ne)
  have hperm' := (List.mergeSort_perm ls' fun a b => Pos.rowMajor a.start b.start).trans hperm
  refine hperm'.eq_of_pairwise (fun a b ha hb hab hba => ?_) (sorted_rowMajor ls')
    (hstart.imp fun {a b} hab => ?_)
  · exact List.inj_on_of_nodup_map hnodup (hperm'.subset ha) hb (Pos.rowMajor_antisymm hab hba)
  · simp only [Pos.rowMajor, Bool.or_eq_true, Bool.and_eq_true, decide_eq_true_eq, beq_iff_eq]
    simp only [Pos.ReadsBefore] at hab
    omega

/-- **Locations are found from their signs** when these tell them apart, in whatever order the
closing signs come. -/
theorem ofSigns_eq {ls : List Location} {os : List Opening} {es : List Pos}
    (hos : os.Perm (ls.map opening)) (hes : es.Perm (ls.map (·.stop)))
    (hsorted : es.Pairwise Pos.ReadsBefore) (hup : ∀ l ∈ ls, l.Upright) (hapart : ls.Pairwise Apart)
    (hstart : ls.Pairwise fun l l' => l.start.ReadsBefore l'.start) :
    ofSigns os es = .ok ls := by
  obtain ⟨ls', hperm, rfl⟩ := exists_perm_of_map_perm hes
  have hclear : ls'.Pairwise Clear := by
    have hboth := (hperm.symm.pairwise hapart Apart.symm).and (List.pairwise_map.mp hsorted)
    exact hboth.imp fun hab => hab.1.2.1 hab.2
  unfold ofSigns
  rw [pairUp_eq (fun l hl => hup l (hperm.subset hl)) hclear (hos.trans (hperm.symm.map _))]
  exact congrArg Except.ok (mergeSort_start_eq hperm hstart)

end Location

namespace Grid

theorem one_le_level {g : Grid} {o : Opening} (h : o ∈ g.openings) : 1 ≤ o.level := by
  obtain ⟨⟨row, y⟩, -, h⟩ := List.mem_flatMap.mp h
  obtain ⟨x, -, h⟩ := List.mem_filterMap.mp h
  simp only at h
  split at h
  · cases h
    simp only
    omega
  · cases h

/-- The level of every glyph is at least one. -/
theorem one_le_level_of_locations {g : Grid} {locs : List Location} (h : g.locations = .ok locs)
    {l : Location} (hl : l ∈ locs) : 1 ≤ l.level := by
  have hmem : l.opening ∈ locs.map Location.opening := List.mem_map_of_mem hl
  exact one_le_level ((Location.ofSigns_eq_ok h).1.symm.subset hmem)

end Grid

end StrandScript
