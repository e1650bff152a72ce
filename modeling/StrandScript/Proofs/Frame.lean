import StrandScript.Proofs.BlockTree
import StrandScript.Proofs.Replay
import StrandScript.Proofs.Writes

/-!
# What a run leaves alone

A run changes the store by the writes of the glyphs it executes, one after the other. So at every
point of it all lists are as they were at its beginning but those that some step of the block may
touch, whether the run comes to its end or fails on the way (`run_frame`).

* `Run.Touched`: the lists that some step of a block may write to.
* `Run.writes`: the writes of a run. They lead to the store that it leaves
  (`Chained.written_writes`).
* `Run.points`: the stores that a run passes through, one after each write.
-/

namespace StrandScript

/-! ## Runs -/

namespace Run

open Item

variable {α : Type} (steps : α → List Step)

/-- The lists that some step of a block may write to. -/
def Touched (items : List (Item α)) (n : Int) : Prop :=
  ∃ g ∈ flatten items, ∃ st ∈ steps g, st.Touches n

/-- The writes of executed glyphs, from the store that the first of them meets. -/
def writes : Store → List (Entry α) → List Machine.Write
  | _, [] => []
  | s, e :: es => Step.logAll .proceed (steps e.glyph) s ++ writes e.store es

/-- The points of a run from store `s`: the store at its beginning, and one after each write of it,
those inside a token included. -/
def points (s : Store) (r : Run α) : List Store := Machine.stages s (writes steps s r.trace)

variable {steps} {W : Int → Prop}

/-! ### The glyphs of a run -/

theorem mem_andThen {r : Run α} {k : Store → Run α} {e : Entry α} (h : e ∈ (r.andThen k).trace) :
    e ∈ r.trace ∨ e ∈ (k r.store).trace := by
  unfold andThen at h
  split at h
  · exact Or.inl h
  · exact List.mem_append.mp h

theorem members_glyph_mem {recur : List (Item α) → Store → Run α}
    (hrec : ∀ items s, ∀ e ∈ (recur items s).trace, e.glyph ∈ flatten items)
    (whole items : List (Item α)) (s : Store) :
    ∀ e ∈ (members steps recur whole items s).trace,
      e.glyph ∈ flatten items ∨ e.glyph ∈ flatten whole := by
  induction items, s using members_induction steps with
  | nil s => simp [members, done]
  | block items rest s ih =>
    intro e he
    rw [flatten_block, List.mem_append]
    obtain he | he := mem_andThen he
    · exact Or.inl (Or.inl (hrec items s e he))
    · exact (ih _ e he).imp_left Or.inr
  | fails g rest s f t hg => simp [members, hg]
  | leaves g rest s t hg => simp [members, hg]
  | proceeds g rest s t hg ih =>
    simp only [members, hg, after, flatten_glyph, List.mem_cons]
    rintro e (rfl | he)
    · exact Or.inl (Or.inl rfl)
    · exact (ih e he).imp_left Or.inr
  | repeats g rest s t hg ih =>
    simp only [members, hg, after, flatten_glyph, List.mem_cons]
    rintro e (rfl | he)
    · exact Or.inl (Or.inl rfl)
    · obtain he | he := mem_andThen he
      · exact Or.inr (hrec whole t e he)
      · exact (ih _ e he).imp_left Or.inr

/-- A run executes glyphs of its block only. -/
theorem block_glyph_mem (limit : Nat) (items : List (Item α)) (s : Store) :
    ∀ e ∈ (block steps limit items s).trace, e.glyph ∈ flatten items := by
  induction limit generalizing items s with
  | zero => simp [block, failed]
  | succ limit ih =>
    unfold block
    split
    · simp [failed]
    · intro e he
      exact (members_glyph_mem ih items items s e he).elim id id

/-! ### The points of a run -/

theorem effect_eq_left (g : α) (s : Store) :
    effect steps g s = Machine.left (Step.performAll (steps g)) s := by
  unfold effect Machine.left
  cases Step.performAll (steps g) s <;> rfl

theorem performAll_logs {g : α} (h : ∀ st ∈ steps g, ∀ n, st.Touches n → W n) :
    Machine.Logs W (Step.logAll .proceed (steps g)) (Step.performAll (steps g)) :=
  Step.performAll_logs .proceed h

theorem Chained.written_writes {s t : Store} {es : List (Entry α)} (h : Chained steps s es t) :
    Machine.written s (writes steps s es) = t := by
  induction es generalizing s with
  | nil => exact h.symm
  | cons e es ih =>
    have hlogs : Machine.Logs (fun _ => True) (Step.logAll .proceed (steps e.glyph)) _ :=
      performAll_logs fun _ _ _ _ => trivial
    rw [writes, Machine.written_append, ← hlogs.left_eq, ← effect_eq_left, effect_of_result h.1]
    exact ih h.2

theorem Chained.writes_mem {s t : Store} {es : List (Entry α)} (h : Chained steps s es t)
    (hW : ∀ e ∈ es, ∀ st ∈ steps e.glyph, ∀ n, st.Touches n → W n) :
    ∀ w ∈ writes steps s es, W w.1 := by
  induction es generalizing s with
  | nil => simp [writes]
  | cons e es ih =>
    rw [List.forall_mem_cons] at hW
    rw [writes, List.forall_mem_append]
    exact ⟨(performAll_logs hW.1).mem s, ih h.2 hW.2⟩

/-- The store that an executed glyph leaves is one of those between the writes. -/
theorem Chained.store_mem_stages {s t : Store} {es : List (Entry α)} (h : Chained steps s es t) :
    ∀ e ∈ es, e.store ∈ Machine.stages s (writes steps s es) := by
  induction es generalizing s with
  | nil => simp
  | cons e es ih =>
    have hlogs : Machine.Logs (fun _ => True) (Step.logAll .proceed (steps e.glyph)) _ :=
      performAll_logs fun _ _ _ _ => trivial
    have hstore : Machine.written s (Step.logAll .proceed (steps e.glyph) s) = e.store := by
      rw [← hlogs.left_eq, ← effect_eq_left, effect_of_result h.1]
    have hself : e.store ∈ Machine.stages s (writes steps s (e :: es)) := by
      rw [writes, Machine.mem_stages_append, hstore]
      exact Or.inr (Machine.mem_stages_self _ _)
    refine List.forall_mem_cons.mpr ⟨hself, fun e' he' => ?_⟩
    rw [writes, Machine.mem_stages_append, hstore]
    exact Or.inr (ih h.2 e' he')

/-- **What a run leaves alone.** A run makes its writes one after the other, and at every point of
it, in the middle of a token and at a fault too, the store has the lists that it had at the
beginning, and a list is as it was unless some data step of the block names it or takes a cell out
of it. Questions change nothing. -/
theorem run_frame (limit : Nat) (items : List (Item α)) (s : Store) :
    (∀ t ∈ points steps s (block steps limit items s), t.numbers = s.numbers ∧
        ∀ n, ¬ Touched steps items n → t.get? n = s.get? n) ∧
      (block steps limit items s).store =
        Machine.written s (writes steps s (block steps limit items s).trace) ∧
      (∀ e ∈ (block steps limit items s).trace,
        e.store ∈ points steps s (block steps limit items s)) ∧
      ∀ g ∈ flatten items, ∀ st ∈ steps g, st.role = some .question →
        ∀ before t, Machine.left (Step.perform before st) t = t := by
  have hchained : Chained steps s _ (block steps limit items s).store := block_chained limit items s
  have hwrites := hchained.writes_mem fun e he st hst n hn =>
    show Touched steps items n from ⟨e.glyph, block_glyph_mem limit items s e he, st, hst, hn⟩
  refine ⟨fun t ht => ?_, hchained.written_writes.symm, hchained.store_mem_stages,
    fun g _ st _ hq before => Step.perform_reads before hq⟩
  have hagree := Machine.stages_agree hwrites t ht
  exact ⟨hagree.numbers, hagree.get?⟩

/-- A step that adds a number to the first cell of list `1`. -/
def addFirst (n : Int) : Step :=
  { (default : Step) with
    role := some .data, form := some .value, list := some 1, cell := some 0, value := some (.int n)
    action := some none }

/-- Two glyphs: one that moves the first cell of list `2` onto the first cell of list `1`, and one
that adds a cell to list `1` and then fails, since what it refers to is gone. -/
def drained : List (Item (List Step)) :=
  [.glyph [{ addFirst 0 with
      form := some .ref, ref := some ⟨2, 0⟩, action := some (some ⟨some .pop, none, 1⟩),
      fields := 18 }],
    .glyph [{ addFirst 0 with
      form := some .ref, cell := some 1, ref := some ⟨2, 0⟩, fields := 18 }]]

/-- The run of `drained` makes three writes and fails in the middle of a step, with lists `1` and
`2` changed and list `3` as it was all the time. -/
theorem run_frame_drained :
    (block id 1 drained ⟨[(1, [.int 1]), (2, [.int 5]), (3, [.int 9])]⟩).fault =
        some (.complaint .cellOutOfBounds) ∧
      (points id ⟨[(1, [.int 1]), (2, [.int 5]), (3, [.int 9])]⟩
          (block id 1 drained ⟨[(1, [.int 1]), (2, [.int 5]), (3, [.int 9])]⟩)).map
        (fun t => t.lists.map fun l => (l.1, l.2.length)) =
          [[(1, 1), (2, 1), (3, 1)], [(1, 1), (2, 1), (3, 1)], [(1, 1), (2, 0), (3, 1)],
            [(1, 2), (2, 0), (3, 1)]] ∧
      ∀ t ∈ points id ⟨[(1, [.int 1]), (2, [.int 5]), (3, [.int 9])]⟩
          (block id 1 drained ⟨[(1, [.int 1]), (2, [.int 5]), (3, [.int 9])]⟩),
        t.get? 3 = some [.int 9] := by
  refine ⟨by decide +kernel, by decide +kernel, fun t ht => ?_⟩
  have h := (run_frame 1 drained ⟨[(1, [.int 1]), (2, [.int 5]), (3, [.int 9])]⟩).1 t ht
  refine (h.2 3 ?_).trans rfl
  simp [Touched, drained, Step.Touches, Step.Drains, addFirst]

end Run

end StrandScript
