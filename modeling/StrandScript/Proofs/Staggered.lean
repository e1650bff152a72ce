import StrandScript.Proofs.Pairing

/-!
# Glyphs side by side

The signs of locations whose rectangles have no place in common need not tell the locations apart. A
location can hang beside another one: it lies left of it, begins lower and ends lower. Its opening
sign is then open when the other one closes, and is taken if it is nearer.

* `Location.mem_candidates_iff`: besides its own opening sign, a closing sign can only take those of
  hanging locations.
* `Location.closest_candidates_iff`: one closing sign takes its own opening sign, unless another
  location lures it (`Location.Lures`).
* `Location.pairUp_eq_ok_iff`: all closing signs take their own opening signs, if none is lured.
* `parted_found_iff`: parted locations are found from their signs exactly if no closing sign is
  lured.
-/

namespace StrandScript

namespace Location

/-! ## The nearest opening sign -/

theorem closest_le {e : Pos} {os : List Opening} {o : Opening} (h : closest e os = some o) :
    ∀ b ∈ os, distance o.pos e ≤ distance b.pos e := by
  induction os generalizing o with
  | nil => cases h
  | cons a os ih =>
    unfold closest at h
    split at h
    · rename_i hnone
      cases h
      rw [closest_eq_none.mp hnone]
      exact List.forall_mem_singleton.mpr (Int.le_refl _)
    · rename_i b hb
      rw [List.forall_mem_cons]
      split at h
      · rename_i hlt
        cases h
        exact ⟨Int.le_of_lt hlt, ih hb⟩
      · rename_i hle
        cases h
        exact ⟨Int.le_refl _, fun c hc => Int.le_trans (Int.not_lt.mp hle) (ih hb c hc)⟩

/-- The first opening sign is the closest one if none is nearer: it goes before others as near. -/
theorem closest_cons_eq_head {e : Pos} {o : Opening} {os : List Opening} :
    closest e (o :: os) = some o ↔ ∀ b ∈ os, distance o.pos e ≤ distance b.pos e := by
  constructor
  · intro h
    exact (List.forall_mem_cons.mp (closest_le h)).2
  · intro h
    unfold closest
    split
    · rfl
    · rename_i b hb
      rw [if_neg (Int.not_lt.mpr (h b (mem_of_closest hb)))]

/-- An opening sign that is read before all others is the closest one if none is nearer. -/
theorem closest_eq_first {e : Pos} {a : Opening} {os : List Opening}
    (hsorted : os.Pairwise fun a b => a.pos.ReadsBefore b.pos) (ha : a ∈ os)
    (hfirst : ∀ b ∈ os, b ≠ a → a.pos.ReadsBefore b.pos) :
    closest e os = some a ↔ ∀ b ∈ os, distance a.pos e ≤ distance b.pos e := by
  cases os with
  | nil => cases ha
  | cons b os =>
    have hb : b = a := by
      by_contra hne
      have hmem : a ∈ os := (List.mem_cons.mp ha).resolve_left (Ne.symm hne)
      exact ((List.pairwise_cons.mp hsorted).1 a hmem).asymm (hfirst b List.mem_cons_self hne)
    rw [hb, closest_cons_eq_head, List.forall_mem_cons]
    exact (and_iff_right (Int.le_refl _)).symm

/-! ## Parted locations -/

/-- No place lies in both rectangles. -/
def Parted (l l' : Location) : Prop :=
  ∀ p, within l.start l.stop p = true → within l'.start l'.stop p = false

theorem Parted.symm {l l' : Location} (h : l.Parted l') : l'.Parted l := by
  intro p hp
  cases hq : within l.start l.stop p with
  | false => rfl
  | true =>
    rw [h p hq] at hp
    cases hp

/-- `l'` hangs beside `l`: it lies left of `l`, begins between the first and the last row of `l`,
and ends further down. -/
def Hangs (l' l : Location) : Prop :=
  l'.stop.x < l.start.x ∧ l.start.y < l'.start.y ∧ l'.start.y < l.stop.y ∧ l.stop.y < l'.stop.y

/-- Among the locations `ls`, `l'` lures the closing sign of `l`: it hangs beside `l`, its opening
sign is nearer than that of `l`, and no opening sign of another location that closes later lies
between. -/
def Lures (ls : List Location) (l' l : Location) : Prop :=
  l'.Hangs l ∧ distance l'.start l.stop < distance l.start l.stop ∧
    ∀ k ∈ ls, l.stop.ReadsBefore k.stop → k ≠ l' → within l'.start l.stop k.start = false

instance (l : Location) : Decidable l.Upright := inferInstanceAs (Decidable (_ ∧ _))

instance (l' l : Location) : Decidable (l'.Hangs l) := inferInstanceAs (Decidable (_ ∧ _))

instance (ls : List Location) (l' l : Location) : Decidable (Lures ls l' l) :=
  inferInstanceAs (Decidable (_ ∧ _))

theorem within_iff {s e p : Pos} :
    within s e p = true ↔ s.x ≤ p.x ∧ p.x ≤ e.x ∧ s.y ≤ p.y ∧ p.y ≤ e.y := by
  simp only [within, Bool.and_eq_true, decide_eq_true_eq, and_assoc]

theorem within_eq_false {s e p : Pos} :
    within s e p = false ↔ ¬ (s.x ≤ p.x ∧ p.x ≤ e.x ∧ s.y ≤ p.y ∧ p.y ≤ e.y) := by
  rw [← within_iff, Bool.not_eq_true]

/-- Two locations are parted if one lies left of the other or above it. -/
theorem Parted.of_sides {l l' : Location}
    (h : l.stop.x < l'.start.x ∨ l'.stop.x < l.start.x ∨ l.stop.y < l'.start.y ∨
      l'.stop.y < l.start.y) :
    l.Parted l' := by
  intro p hp
  rw [within_iff] at hp
  rw [within_eq_false]
  omega

/-- Of two parted locations, one lies left of the other or above it. -/
theorem Parted.sides {l l' : Location} (h : l.Parted l') (hl : l.Upright) (hl' : l'.Upright) :
    l.stop.x < l'.start.x ∨ l'.stop.x < l.start.x ∨ l.stop.y < l'.start.y ∨
      l'.stop.y < l.start.y := by
  -- the upper left corner of the overlap
  have hcorner := h ⟨max l.start.x l'.start.x, max l.start.y l'.start.y⟩
  rw [within_iff, within_eq_false] at hcorner
  dsimp only at hcorner
  unfold Upright at hl hl'
  omega

theorem Parted.within_start {l l' : Location} (h : l.Parted l') (hl' : l'.Upright) :
    within l.start l.stop l'.start = false := by
  cases hw : within l.start l.stop l'.start with
  | false => rfl
  | true =>
    have hout := h _ hw
    rw [hl'.within_start] at hout
    cases hout

theorem Parted.start_ne {l l' : Location} (h : l.Parted l') (hl : l.Upright) (hl' : l'.Upright) :
    l.start ≠ l'.start := by
  intro he
  have hout := h.within_start hl'
  rw [← he, hl.within_start] at hout
  cases hout

/-- Among the locations that close after `l`, those that hang beside `l` have their opening signs
above and left of its closing sign, with the opening sign of `l` not in between. -/
theorem hangs_iff {l l' : Location} (hparted : l.Parted l') (hl : l.Upright) (hl' : l'.Upright)
    (hlater : l.stop.ReadsBefore l'.stop) :
    l'.Hangs l ↔
      (l'.start.x < l.stop.x ∧ l'.start.y < l.stop.y) ∧ within l'.start l.stop l.start = false := by
  have hsides := hparted.sides hl hl'
  rw [within_eq_false]
  unfold Hangs
  unfold Upright at hl hl'
  unfold Pos.ReadsBefore at hlater
  omega

/-- Of parted locations, no two have their opening signs in one place. -/
theorem nodup_starts {ls : List Location} (hup : ∀ l ∈ ls, l.Upright)
    (hparted : ls.Pairwise Parted) :
    (ls.map (·.start)).Nodup :=
  List.pairwise_map.mpr <| hparted.imp_of_mem fun ha hb h => h.start_ne (hup _ ha) (hup _ hb)

/-! ## One closing sign -/

section Step

variable {l : Location} {ls : List Location} {os : List Opening} (hl : l.Upright)
  (hup : ∀ l' ∈ ls, l'.Upright) (hl_parted : ∀ l' ∈ ls, l.Parted l') (hparted : ls.Pairwise Parted)
  (hlater : ∀ l' ∈ ls, l.stop.ReadsBefore l'.stop) (hos : os.Perm ((l :: ls).map opening))

include hl hup hl_parted hparted hlater hos

/-- The opening signs that a closing sign can take: its own one, and those of hanging locations that
no other location separates from it. -/
theorem mem_candidates_iff (o : Opening) :
    o ∈ candidates os l.stop ↔
      o = l.opening ∨ ∃ l' ∈ ls, o = l'.opening ∧ l'.Hangs l ∧
        ∀ k ∈ ls, k ≠ l' → within l'.start l.stop k.start = false := by
  rw [mem_candidates_of_perm hos, List.exists_mem_cons_iff, List.forall_mem_cons]
  constructor
  · rintro ⟨rfl | ⟨l', hl', rfl⟩, hreach, hown, hfree⟩
    · exact Or.inl rfl
    · have hne : l.opening ≠ l'.opening := fun he =>
        (hl_parted l' hl').start_ne hl (hup l' hl') (congrArg Opening.pos he)
      refine Or.inr ⟨l', hl', rfl, ?_, fun k hk hkl' => hfree k hk fun he => hkl' ?_⟩
      · exact (hangs_iff (hl_parted l' hl') hl (hup l' hl') (hlater l' hl')).mpr ⟨hreach, hown hne⟩
      · exact List.inj_on_of_nodup_map (nodup_starts hup hparted) hk hl' (congrArg Opening.pos he)
  · rintro (rfl | ⟨l', hl', rfl, hhangs, hfree⟩)
    · exact ⟨Or.inl rfl, hl, fun h => absurd rfl h,
        fun k hk _ => (hl_parted k hk).within_start (hup k hk)⟩
    · obtain ⟨hreach, hown⟩ :=
        (hangs_iff (hl_parted l' hl') hl (hup l' hl') (hlater l' hl')).mp hhangs
      refine ⟨Or.inr ⟨l', hl', rfl⟩, hreach, fun _ => hown, fun k hk hne => hfree k hk ?_⟩
      rintro rfl
      exact hne rfl

/-- A closing sign takes its own opening sign if no other one lures it. -/
theorem closest_candidates_iff (hsorted : os.Pairwise fun a b => a.pos.ReadsBefore b.pos) :
    closest l.stop (candidates os l.stop) = some l.opening ↔ ∀ l' ∈ ls, ¬ Lures (l :: ls) l' l := by
  have hcand := mem_candidates_iff hl hup hl_parted hparted hlater hos
  -- a location that hangs beside another one begins lower, so its opening sign is read later
  have hfirst : ∀ o ∈ candidates os l.stop, o ≠ l.opening → l.opening.pos.ReadsBefore o.pos := by
    intro o ho hne
    obtain rfl | ⟨l', -, rfl, hhangs, -⟩ := (hcand o).mp ho
    · exact absurd rfl hne
    · exact Or.inl hhangs.2.1
  have hcand_sorted : (candidates os l.stop).Pairwise fun a b => a.pos.ReadsBefore b.pos :=
    hsorted.sublist List.filter_sublist
  rw [closest_eq_first hcand_sorted ((hcand _).mpr (Or.inl rfl)) hfirst]
  constructor
  · rintro hle l' hl' ⟨hhangs, hnear, hfree⟩
    have hl'_cand : l'.opening ∈ candidates os l.stop :=
      (hcand _).mpr <| Or.inr ⟨l', hl', rfl, hhangs, fun k hk hne =>
        hfree k (List.mem_cons_of_mem l hk) (hlater k hk) hne⟩
    exact absurd hnear (Int.not_lt.mpr (hle _ hl'_cand))
  · intro hno o ho
    obtain rfl | ⟨l', hl', rfl, hhangs, hfree⟩ := (hcand o).mp ho
    · exact Int.le_refl _
    · refine Int.not_lt.mp fun hnear => hno l' hl' ⟨hhangs, hnear, fun k hk hlate hne => ?_⟩
      obtain rfl | hk := List.mem_cons.mp hk
      · exact absurd rfl hlate.ne
      · exact hfree k hk hne

end Step

/-! ## All closing signs -/

/-- No closing sign is lured. -/
def Unlured (ls : List Location) : Prop := ∀ l ∈ ls, ∀ l' ∈ ls, ¬ Lures ls l' l

instance (ls : List Location) : Decidable (Unlured ls) :=
  inferInstanceAs (Decidable (∀ l ∈ ls, ∀ l' ∈ ls, ¬ Lures ls l' l))

theorem Hangs.readsBefore {l' l : Location} (h : l'.Hangs l) : l.stop.ReadsBefore l'.stop :=
  Or.inl h.2.2.2

/-- The location that closes first lures none, and it is not between either when another one
closes. -/
theorem unlured_cons {l : Location} {ls : List Location}
    (hlater : ∀ l' ∈ ls, l.stop.ReadsBefore l'.stop) :
    Unlured (l :: ls) ↔ (∀ l' ∈ ls, ¬ Lures (l :: ls) l' l) ∧ Unlured ls := by
  have hclosed : ∀ a ∈ l :: ls, ¬ Lures (l :: ls) l a := by
    rintro a ha ⟨hhangs, -⟩
    obtain rfl | ha := List.mem_cons.mp ha
    · exact hhangs.readsBefore.ne rfl
    · exact hhangs.readsBefore.asymm (hlater a ha)
  have hrest : ∀ a ∈ ls, ∀ l', Lures (l :: ls) l' a ↔ Lures ls l' a := by
    intro a ha l'
    unfold Lures
    rw [List.forall_mem_cons, and_iff_right fun h => absurd h (hlater a ha).asymm]
  unfold Unlured
  rw [List.forall_mem_cons, List.forall_mem_cons, and_iff_right (hclosed l List.mem_cons_self)]
  refine and_congr_right fun _ => forall₂_congr fun a ha => ?_
  rw [List.forall_mem_cons, and_iff_right (hclosed a (List.mem_cons_of_mem l ha))]
  exact forall₂_congr fun l' _ => not_congr (hrest a ha l')

/-- All closing signs take their own opening signs, one after the other, if none is lured. -/
theorem pairUp_eq_ok_iff {ls : List Location} {os : List Opening} (hup : ∀ l ∈ ls, l.Upright)
    (hparted : ls.Pairwise Parted) (hstop : ls.Pairwise fun l l' => l.stop.ReadsBefore l'.stop)
    (hos : os.Perm (ls.map opening)) (hsorted : os.Pairwise fun a b => a.pos.ReadsBefore b.pos) :
    pairUp os (ls.map (·.stop)) = .ok (ls, []) ↔ Unlured ls := by
  induction ls generalizing os with
  | nil =>
    obtain rfl := hos.eq_nil
    exact iff_of_true rfl fun l hl => (List.not_mem_nil hl).elim
  | cons l ls ih =>
    rw [List.forall_mem_cons] at hup
    rw [List.pairwise_cons] at hparted hstop
    rw [List.map_cons, pairUp_cons_eq_ok, unlured_cons hstop.1,
      closest_candidates_iff hup.1 hup.2 hparted.1 hparted.2 hstop.1 hos hsorted,
      ih hup.2 hparted.2 hstop.2 (erase_opening_perm hos) (hsorted.sublist List.erase_sublist)]

/-- Locations are found in the order of their opening signs, if pairing finds them in the order of
their closing signs. -/
theorem ofSigns_eq_ok_iff {ls ls' : List Location} {os : List Opening} (hperm : ls'.Perm ls)
    (hstart : ls.Pairwise fun l l' => l.start.ReadsBefore l'.start)
    (hstop : ls'.Pairwise fun l l' => l.stop.ReadsBefore l'.stop) :
    ofSigns os (ls'.map (·.stop)) = .ok ls ↔ pairUp os (ls'.map (·.stop)) = .ok (ls', []) := by
  constructor
  · intro h
    obtain ⟨⟨found, rest⟩, hp, h⟩ := Outcome.bind_eq_ok.mp h
    cases rest with
    | cons o rest => cases h
    | nil =>
      have hfound : found.Perm ls' := by
        have hsort := List.mergeSort_perm found fun a b => Pos.rowMajor a.start b.start
        rw [Except.ok.inj h] at hsort
        exact hsort.symm.trans hperm.symm
      have hfound_stop : found.Pairwise fun l l' => l.stop.ReadsBefore l'.stop := by
        have hstops := List.pairwise_map.mpr hstop
        rw [← (pairUp_eq_ok hp).1] at hstops
        exact List.pairwise_map.mp hstops
      rw [hp, hfound.eq_of_pairwise (fun a b _ _ hab hba => absurd hba hab.asymm) hfound_stop hstop]
  · intro h
    unfold ofSigns
    rw [h]
    exact congrArg Except.ok (mergeSort_start_eq hperm hstart)

end Location

open Location

/-- **Parted locations are found from their signs exactly if no closing sign is lured.** Let the
rectangles of some locations have no place in common, and the opening signs be given in reading
order, and the closing signs too. All locations are found, with their levels, unless a location
hangs beside another one, its opening sign is nearer to the closing sign of that one than the right
one, and nothing hides it. -/
theorem parted_found_iff {ls : List Location} {es : List Pos} (hup : ∀ l ∈ ls, l.Upright)
    (hparted : ls.Pairwise Parted) (hstart : ls.Pairwise fun l l' => l.start.ReadsBefore l'.start)
    (hes : es.Perm (ls.map (·.stop))) (hsorted : es.Pairwise Pos.ReadsBefore) :
    ofSigns (ls.map opening) es = .ok ls ↔ Unlured ls := by
  obtain ⟨ls', hperm, rfl⟩ := exists_perm_of_map_perm hes
  have hstop := List.pairwise_map.mp hsorted
  have hunlured : Unlured ls' ↔ Unlured ls := by
    simp only [Unlured, Lures, hperm.mem_iff]
  rw [ofSigns_eq_ok_iff hperm hstart hstop, ← hunlured]
  exact pairUp_eq_ok_iff (fun l hl => hup l (hperm.subset hl))
    (hperm.symm.pairwise hparted Parted.symm) hstop (hperm.symm.map _)
    (List.pairwise_map.mpr hstart)

/-- The second location hangs beside the first one and its opening sign is nearer, but the opening
sign of the third one hides it. -/
def hiddenLocations : List Location :=
  [⟨⟨6, 0⟩, ⟨7, 12⟩, 1⟩, ⟨⟨0, 10⟩, ⟨1, 14⟩, 2⟩, ⟨⟨3, 12⟩, ⟨5, 15⟩, 1⟩]

theorem parted_found_iff_hidden :
    (∀ l ∈ hiddenLocations, l.Upright) ∧ hiddenLocations.Pairwise Parted ∧
      Hangs ⟨⟨0, 10⟩, ⟨1, 14⟩, 2⟩ ⟨⟨6, 0⟩, ⟨7, 12⟩, 1⟩ ∧
      distance ⟨0, 10⟩ ⟨7, 12⟩ < distance ⟨6, 0⟩ ⟨7, 12⟩ ∧
      ofSigns [⟨⟨6, 0⟩, 1⟩, ⟨⟨0, 10⟩, 2⟩, ⟨⟨3, 12⟩, 1⟩] [⟨7, 12⟩, ⟨1, 14⟩, ⟨5, 15⟩] =
        .ok hiddenLocations := by
  have hup : ∀ l ∈ hiddenLocations, l.Upright := by decide
  have hparted : hiddenLocations.Pairwise Parted := List.Pairwise.imp Parted.of_sides (by decide)
  refine ⟨hup, hparted, by decide, by decide, ?_⟩
  exact (parted_found_iff hup hparted (by decide) (.refl _) (by decide)).mpr (by decide)

/-- Two locations side by side, the left one a little lower. -/
def staggeredLocations : List Location := [⟨⟨2, 0⟩, ⟨3, 4⟩, 1⟩, ⟨⟨0, 3⟩, ⟨1, 5⟩, 1⟩]

/-- Parted locations need not be found: the closing sign of the right one takes the opening sign of
the left one, and none is left for the closing sign of that. -/
theorem staggered_not_found :
    (∀ l ∈ staggeredLocations, l.Upright) ∧ staggeredLocations.Pairwise Parted ∧
      (staggeredLocations.Pairwise fun l l' => l.start.ReadsBefore l'.start) ∧
      ofSigns (staggeredLocations.map opening) (staggeredLocations.map (·.stop)) =
        .error (.complaint (.closingAlone ⟨1, 5⟩)) :=
  ⟨by decide, List.Pairwise.imp Parted.of_sides (by decide), by decide, by decide +kernel⟩

end StrandScript
