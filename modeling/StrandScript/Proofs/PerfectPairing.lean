import Mathlib.Data.List.Permutation
import StrandScript.Proofs.Pairing

/-!
# Every sign is paired, or one is left alone

Closing signs take opening signs one after the other, and what has been taken is open no more.
Whatever the signs are, as long as no two opening signs stand in one place, the pairs made so far
and the opening signs still open account for all signs, and no opening sign that is open when a pair
is made lies in its rectangle (`Location.Pairs`). So in the end all signs are paired, or the fault
names a sign that has no partner (`pairing_perfect`).

* `Location.Pairs.cons`: one closing sign more.
* `Location.pairUp_pairs`, `Location.pairUp_eq_error`: all closing signs, or those before the one
  that finds no partner.
-/

namespace StrandScript

namespace Location

/-- The closing signs `es` are paired in turn, with opening signs out of `os`, as the locations
`ls`; the opening signs `rest` are still open. -/
structure Pairs (os : List Opening) (es : List Pos) (ls : List Location) (rest : List Opening) :
    Prop where
  stops : ls.map (·.stop) = es
  openings : (ls.map opening ++ rest).Perm os
  upright : ∀ l ∈ ls, l.Upright
  /-- An opening sign that was taken later lies outside. -/
  later : ls.Pairwise fun l l' => within l.start l.stop l'.start = false
  /-- An opening sign that is still open lies outside. -/
  outside : ∀ l ∈ ls, ∀ o ∈ rest, within l.start l.stop o.pos = false

variable {os rest : List Opening} {es : List Pos} {ls : List Location} {e : Pos} {o : Opening}

/-- **One closing sign more**: the opening sign that it takes is one with no other open one in
between. -/
theorem Pairs.cons (hos : os.Nodup) (ho : o ∈ candidates os e) (h : Pairs (os.erase o) es ls rest) :
    Pairs os (e :: es) (⟨o.pos, e, o.level⟩ :: ls) rest := by
  obtain ⟨hmem, hreach, hfree⟩ := mem_candidates_open.mp ho
  have hopen : ∀ b ∈ ls.map opening ++ rest, within o.pos e b.pos = false := fun b hb => by
    obtain ⟨hne, hb⟩ := hos.mem_erase_iff.mp (h.openings.subset hb)
    exact hfree b hb hne
  rw [List.forall_mem_append, List.forall_mem_map] at hopen
  constructor
  case stops => rw [List.map_cons, h.stops]
  case openings => exact (h.openings.cons o).trans (List.perm_cons_erase hmem).symm
  case upright => exact List.forall_mem_cons.mpr ⟨hreach, h.upright⟩
  case later => exact List.pairwise_cons.mpr ⟨hopen.1, h.later⟩
  case outside => exact List.forall_mem_cons.mpr ⟨hopen.2, h.outside⟩

/-- Pairing makes pairs of all closing signs, if it comes to its end. -/
theorem pairUp_pairs (hos : os.Nodup) (h : pairUp os es = .ok (ls, rest)) :
    Pairs os es ls rest := by
  induction es generalizing os ls with
  | nil =>
    cases h
    exact ⟨rfl, .refl _, by simp, .nil, by simp⟩
  | cons e es ih =>
    unfold pairUp at h
    split at h
    · cases h
    · rename_i o ho
      obtain ⟨⟨ls', rest'⟩, hp, h⟩ := Outcome.bind_eq_ok.mp h
      cases h
      exact (ih (hos.erase o) hp).cons hos (mem_of_closest ho)

/-- Pairing fails at the first closing sign that no open sign can be taken for. -/
theorem pairUp_eq_error (hos : os.Nodup) {f : Fault} (h : pairUp os es = .error f) :
    ∃ before e after ls rest, es = before ++ e :: after ∧ Pairs os before ls rest ∧
      candidates rest e = [] ∧ f = .complaint (.closingAlone e) := by
  induction es generalizing os with
  | nil => cases h
  | cons e es ih =>
    unfold pairUp at h
    split at h
    · rename_i hnone
      cases h
      exact ⟨[], e, es, [], os, rfl, ⟨rfl, .refl _, by simp, .nil, by simp⟩,
        closest_eq_none.mp hnone, rfl⟩
    · rename_i o ho
      obtain hp | ⟨⟨ls, rest⟩, -, h⟩ := Outcome.bind_eq_error.mp h
      · obtain ⟨before, e', after, ls, rest, rfl, hpairs, hnone, rfl⟩ := ih (hos.erase o) hp
        exact ⟨e :: before, e', after, _, rest, rfl, hpairs.cons hos (mem_of_closest ho), hnone,
          rfl⟩
      · cases h

theorem candidates_eq_nil : candidates os e = [] ↔
    ∀ o ∈ os, o.pos.x < e.x → o.pos.y < e.y → ∃ b ∈ os, b ≠ o ∧ within o.pos e b.pos = true := by
  simp only [List.eq_nil_iff_forall_not_mem, mem_candidates_open, not_and, not_forall,
    Bool.not_eq_false, exists_prop, and_imp]

/-- Locations whose opening signs stand in different places are sorted strictly. -/
theorem mergeSort_readsBefore (h : (ls.map (·.start)).Nodup) :
    (ls.mergeSort fun a b => Pos.rowMajor a.start b.start).Pairwise
      fun l l' => l.start.ReadsBefore l'.start := by
  have hperm := List.mergeSort_perm ls fun a b => Pos.rowMajor a.start b.start
  have hne := List.pairwise_map.mp ((hperm.map (·.start)).nodup_iff.mpr h)
  refine ((sorted_rowMajor ls).and hne).imp fun {a b} hab => ?_
  obtain ⟨hle, hne⟩ := hab
  by_contra hnot
  refine hne (Pos.rowMajor_antisymm hle ?_)
  unfold Pos.ReadsBefore at hnot
  simp only [Pos.rowMajor, Bool.or_eq_true, Bool.and_eq_true, decide_eq_true_eq, beq_iff_eq]
  omega

end Location

open Location

/-- **Pairing is perfect, or a sign is left alone.** Let the opening signs stand in different
places, and the closing signs anywhere. If locations are found, then they are pairs of all signs:
each closing sign has been paired in its turn, every opening sign has one of them, lies above and
left of it and keeps its level, and no opening sign of a pair made later lies in the rectangle of
one made earlier; and they come in reading order of their opening signs. Otherwise the fault names a
sign without a partner: the first closing sign for which every open sign above and left of it has
another open one in between, or, with all closing signs paired, an opening sign that is still
open. -/
theorem pairing_perfect (os : List Opening) (es : List Pos) (h : (os.map (·.pos)).Nodup) :
    (∃ ls made, ofSigns os es = .ok ls ∧ made.Perm ls ∧ Pairs os es made [] ∧
        ls.Pairwise fun l l' => l.start.ReadsBefore l'.start) ∨
      (∃ before e after made rest, ofSigns os es = .error (.complaint (.closingAlone e)) ∧
        es = before ++ e :: after ∧ Pairs os before made rest ∧
        ∀ o ∈ rest, o.pos.x < e.x → o.pos.y < e.y →
          ∃ b ∈ rest, b ≠ o ∧ within o.pos e b.pos = true) ∨
      ∃ made o rest, ofSigns os es = .error (.complaint (.openingAlone o.pos)) ∧
        Pairs os es made (o :: rest) := by
  have hos : os.Nodup := .of_map _ h
  cases hp : pairUp os es with
  | error f =>
    obtain ⟨before, e, after, made, rest, hes, hpairs, hnone, rfl⟩ := pairUp_eq_error hos hp
    refine Or.inr
      (Or.inl ⟨before, e, after, made, rest, ?_, hes, hpairs, candidates_eq_nil.mp hnone⟩)
    unfold ofSigns
    rw [hp]
    rfl
  | ok paired =>
    obtain ⟨made, rest⟩ := paired
    have hpairs := pairUp_pairs hos hp
    cases rest with
    | nil =>
      have hstarts : (made.map (·.start)).Nodup := by
        have hperm := hpairs.openings.map Opening.pos
        rw [List.append_nil, List.map_map] at hperm
        exact hperm.nodup_iff.mpr h
      refine Or.inl ⟨_, made, ?_, (List.mergeSort_perm _ _).symm, hpairs,
        mergeSort_readsBefore hstarts⟩
      unfold ofSigns
      rw [hp]
      rfl
    | cons o rest =>
      refine Or.inr (Or.inr ⟨made, o, rest, ?_, hpairs⟩)
      unfold ofSigns
      rw [hp]
      rfl

/-- The opening signs of three glyphs, of which the second one lies between the first and the
closing sign that comes first. -/
def nestedOpenings : List Opening := [⟨⟨0, 0⟩, 1⟩, ⟨⟨2, 1⟩, 3⟩, ⟨⟨1, 6⟩, 2⟩]

/-- The closing sign that comes first takes the second opening sign, and the two in one place take
those that are left, the nearer one first. -/
theorem pairing_perfect_nested :
    (nestedOpenings.map (·.pos)).Nodup ∧
      ofSigns nestedOpenings [⟨5, 4⟩, ⟨7, 8⟩, ⟨7, 8⟩] =
        .ok [⟨⟨0, 0⟩, ⟨7, 8⟩, 1⟩, ⟨⟨2, 1⟩, ⟨5, 4⟩, 3⟩, ⟨⟨1, 6⟩, ⟨7, 8⟩, 2⟩] ∧
      ∃ made : List Location,
        made.Perm [⟨⟨0, 0⟩, ⟨7, 8⟩, 1⟩, ⟨⟨2, 1⟩, ⟨5, 4⟩, 3⟩, ⟨⟨1, 6⟩, ⟨7, 8⟩, 2⟩] ∧
        Pairs nestedOpenings [⟨5, 4⟩, ⟨7, 8⟩, ⟨7, 8⟩] made [] := by
  have hne : (nestedOpenings.map (·.pos)).Nodup := by decide
  have hok : ofSigns nestedOpenings [⟨5, 4⟩, ⟨7, 8⟩, ⟨7, 8⟩] =
      .ok [⟨⟨0, 0⟩, ⟨7, 8⟩, 1⟩, ⟨⟨2, 1⟩, ⟨5, 4⟩, 3⟩, ⟨⟨1, 6⟩, ⟨7, 8⟩, 2⟩] := by cbv
  refine ⟨hne, hok, ?_⟩
  obtain ⟨ls, made, hls, hperm, hpairs, -⟩ | ⟨_, _, _, _, _, hf, -⟩ | ⟨_, _, _, hf, -⟩ :=
    pairing_perfect nestedOpenings [⟨5, 4⟩, ⟨7, 8⟩, ⟨7, 8⟩] hne
  · obtain rfl := Except.ok.inj (hok.symm.trans hls)
    exact ⟨made, hperm, hpairs⟩
  · rw [hf] at hok
    cases hok
  · rw [hf] at hok
    cases hok

end StrandScript
