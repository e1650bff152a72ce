import StrandScript.Proofs.Frame
import StrandScript.Proofs.Reading
import StrandScript.Proofs.Saving

/-!
# What a rollback leaves behind

A block ends when one of its own glyphs answers with a rollback. Nothing is taken back then: the
block leaves the store as that glyph left it, with all that the glyphs before it wrote, those of
blocks inside and of repetitions included. So the lists are as they were before the block exactly
when the last of these writes to each of them puts back what it held (`rollback_restores_iff`).

* `Run.endsInRollback`: a run of a block is ended by a glyph of its own.
-/

namespace StrandScript.Run

variable {α : Type} (steps : α → List Step)

/-! ## Blocks that end in a rollback -/

/-- Whether the members of a block, run as in `Run.members`, come to a glyph that answers with a
rollback. A block inside, or the whole block once more, counts as one member that is run to its
end. -/
def rollsBack (recur : List (Item α) → Store → Run α) (whole : List (Item α)) :
    List (Item α) → Store → Bool
  | [], _ => false
  | .block items :: rest, s =>
    (recur items s).fault.isNone && rollsBack recur whole rest (recur items s).store
  | .glyph g :: rest, s =>
    match Step.performAll (steps g) s with
    | .error _ _ => false
    | .ok .rollback _ => true
    | .ok .proceed t => rollsBack recur whole rest t
    | .ok .again t =>
      (recur whole t).fault.isNone && rollsBack recur whole rest (recur whole t).store

/-- Whether a run of a block is ended by a rollback of one of its own glyphs. -/
def endsInRollback : Nat → List (Item α) → Store → Bool
  | 0, _, _ => false
  | limit + 1, items, s =>
    match s.saveable with
    | .error _ => false
    | .ok () => rollsBack steps (block steps limit) items items s

variable {steps}

/-- A run that stops, without a fault, at a glyph among `items` that answers with a rollback, and
leaves the store as that glyph left it. -/
def StopsAtRollback (items : List (Item α)) (r : Run α) : Prop :=
  r.fault = none ∧ ∃ e ∈ r.trace.getLast?,
    .glyph e.glyph ∈ items ∧ e.outcome = .ok .rollback ∧ e.store = r.store

theorem StopsAtRollback.mono {items items' : List (Item α)} {r : Run α}
    (h : StopsAtRollback items r) (hi : ∀ i ∈ items, i ∈ items') : StopsAtRollback items' r := by
  obtain ⟨hf, e, he, hg, ho, hs⟩ := h
  exact ⟨hf, e, he, hi _ hg, ho, hs⟩

theorem StopsAtRollback.after {items : List (Item α)} {r : Run α} (h : StopsAtRollback items r)
    (e : Entry α) : StopsAtRollback items (r.after e) := by
  obtain ⟨hf, e', he, h⟩ := h
  refine ⟨hf, e', ?_, h⟩
  rw [Option.mem_def] at he ⊢
  simp [Run.after, List.getLast?_cons, he]

theorem StopsAtRollback.andThen {items : List (Item α)} {r : Run α} {k : Store → Run α}
    (hr : r.fault = none) (h : StopsAtRollback items (k r.store)) :
    StopsAtRollback items (r.andThen k) := by
  obtain ⟨hf, e, he, h⟩ := h
  unfold Run.andThen
  rw [hr]
  refine ⟨hf, e, ?_, h⟩
  rw [Option.mem_def] at he ⊢
  simp [List.getLast?_append, he]

theorem members_stopsAtRollback {recur : List (Item α) → Store → Run α} {whole : List (Item α)}
    {items : List (Item α)} {s : Store} (h : rollsBack steps recur whole items s = true) :
    StopsAtRollback items (members steps recur whole items s) := by
  induction items generalizing s with
  | nil => simp [rollsBack] at h
  | cons i rest ih =>
    have tail {t : Store} (ht : rollsBack steps recur whole rest t = true) :
        StopsAtRollback (i :: rest) (members steps recur whole rest t) :=
      (ih ht).mono fun _ hj => List.mem_cons_of_mem _ hj
    cases i with
    | block items =>
      simp only [rollsBack, Bool.and_eq_true, Option.isNone_iff_eq_none] at h
      exact .andThen h.1 (tail h.2)
    | glyph g =>
      rw [rollsBack] at h
      rw [members]
      cases hg : Step.performAll (steps g) s with
      | error f t =>
        rw [hg] at h
        cases h
      | ok a t =>
        rw [hg] at h
        cases a with
        | rollback => exact ⟨rfl, _, rfl, List.mem_cons_self, rfl, rfl⟩
        | proceed => exact (tail h).after _
        | again =>
          simp only [Bool.and_eq_true, Option.isNone_iff_eq_none] at h
          exact (StopsAtRollback.andThen h.1 (tail h.2)).after _

theorem block_stopsAtRollback {limit : Nat} {items : List (Item α)} {s : Store}
    (h : endsInRollback steps limit items s = true) :
    StopsAtRollback items (block steps limit items s) := by
  cases limit with
  | zero => simp [endsInRollback] at h
  | succ limit =>
    simp only [endsInRollback] at h
    split at h
    · cases h
    · rename_i hs
      rw [block, hs]
      exact members_stopsAtRollback h

/-- **A rollback undoes nothing.** A block that is ended by one of its own glyphs leaves what all
the glyphs that it has executed, replayed from where it began, come to. So every list holds what it
held then if and only if the last of their writes to it, where there is one, has put that back. -/
theorem rollback_restores_iff (limit : Nat) (items : List (Item α)) (s : Store)
    (h : endsInRollback steps limit items s = true) :
    StopsAtRollback items (block steps limit items s) ∧
      (block steps limit items s).store = replay steps (block steps limit items s).executed s ∧
      ((∀ n, (block steps limit items s).store.get? n = s.get? n) ↔
        ∀ n xs ys, s.get? n = some xs →
          Machine.lastTo n (writes steps s (block steps limit items s).trace) = some ys →
            ys = xs) := by
  refine ⟨block_stopsAtRollback h, store_eq_replay limit items s, forall_congr' fun n => ?_⟩
  rw [← (block_chained limit items s).written_writes, Machine.get?_written]
  cases s.get? n <;> cases Machine.lastTo n _ <;> simp

/-- A step that asks whether the first cell of list `1` is positive. -/
def askFirst : Step :=
  { (default : Step) with
    role := some .question, subject := some .cell, ref := some ⟨1, 0⟩, repetition := some .once }

/-- A block inside that adds one to the cell, and a glyph after it that takes one away and asks. -/
def cancelled : List (Item (List Step)) :=
  [.block [.glyph [addFirst 1]], .glyph [addFirst (-1), askFirst]]

/-- The second write of `cancelled` puts back what was there before the first, so its rollback has
nothing to restore. -/
theorem rollback_restores_iff_cancelled :
    endsInRollback id 2 cancelled ⟨[(1, [.int 0])]⟩ = true ∧
      writes id ⟨[(1, [.int 0])]⟩ (block id 2 cancelled ⟨[(1, [.int 0])]⟩).trace =
        [(1, [.int 1]), (1, [.int 0])] ∧
      ∀ n, (block id 2 cancelled ⟨[(1, [.int 0])]⟩).store.get? n =
        (⟨[(1, [.int 0])]⟩ : Store).get? n := by
  have h : endsInRollback id 2 cancelled ⟨[(1, [.int 0])]⟩ = true := by decide +kernel
  have hs : (⟨[(1, [.int 0])]⟩ : Store).saveable = .ok () := by
    have h0 : (Value.int 0).saveable = .ok () := Value.saveable_int Value.tooLong_pos
    simp [Store.saveable_eq_ok, h0]
  have hw : writes id ⟨[(1, [.int 0])]⟩ (block id 2 cancelled ⟨[(1, [.int 0])]⟩).trace =
      [(1, [.int 1]), (1, [.int 0])] := by
    simp only [block, hs, cancelled, members]
    rfl
  refine ⟨h, hw, (rollback_restores_iff 2 cancelled _ h).2.2.mpr fun n xs ys hxs hys => ?_⟩
  rw [hw] at hys
  by_cases hn : n = 1
  · subst hn
    obtain rfl : [.int 0] = xs := Option.some.inj hxs
    exact (Option.some.inj hys).symm
  · simp [Machine.lastTo, hn] at hys

/-- Two glyphs: one of level two that takes one away from the first cell of list `1` and asks
whether it is positive, and below it one of level one. -/
def rollbackDrawing : String := "╵╵ ╷ ─╯\n   │\n   ╷\n   │   ╷\n\n╵╰─\n   ╷"

/-- Whether an item is a block that a rollback ends with a list `1` of another length than the one
it began with. -/
def keepsWrite (s : Store) : Item (Item.Linked Program.Numbered) → Bool
  | .glyph _ => false
  | .block inner =>
    endsInRollback Program.steps nestingLimit inner s &&
      ((block Program.steps nestingLimit inner s).store.get? 1).map List.length !=
        (s.get? 1).map List.length

/-- A block that is ended by a rollback with a cell written that it did not begin with. -/
theorem rollback_keeps_cell : ∃ gs items inner, Program.parse rollbackDrawing = .ok gs ∧
    Program.tree nestingLimit gs = .ok items ∧ .block inner ∈ items ∧
    endsInRollback Program.steps nestingLimit inner (Program.initialStore gs) = true ∧
    ¬ ∀ n, (block Program.steps nestingLimit inner (Program.initialStore gs)).store.get? n =
      (Program.initialStore gs).get? n := by
  obtain ⟨gs, items, hparse, htree, hany⟩ : ∃ gs items, Program.parse rollbackDrawing = .ok gs ∧
      Program.tree nestingLimit gs = .ok items ∧
      items.any (keepsWrite (Program.initialStore gs)) = true :=
    ⟨_, _, by conv_lhs => cbv, by conv_lhs => cbv, by decide +kernel⟩
  obtain ⟨i, hi, hkeeps⟩ := List.any_eq_true.mp hany
  cases i with
  | glyph g => cases hkeeps
  | block inner =>
    obtain ⟨hends, hlength⟩ := Bool.and_eq_true_iff.mp hkeeps
    refine ⟨gs, items, inner, hparse, htree, hi, hends, fun h => ?_⟩
    rw [h, bne_self_eq_false] at hlength
    cases hlength

end StrandScript.Run
