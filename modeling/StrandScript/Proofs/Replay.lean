import StrandScript.Run

/-!
# Runs as sequences of glyphs

A run of a block, with its nested blocks, repetitions and rollbacks, acts on the store only through
the glyphs it executes, each of them on the store that the one before it left.

* `Run.Chained`: the entries of a trace follow on each other (`block_chained`).
* `Run.replay`: some glyphs executed one after the other. Replaying what a run has executed gives
  the store that the run leaves (`store_eq_replay`).
-/

namespace StrandScript

namespace Entry

variable {α : Type}

/-- The result of the steps of an executed glyph. -/
def result (e : Entry α) : EStateM.Result Fault Store Answer :=
  match e.outcome with
  | .ok a => .ok a e.store
  | .error f => .error f e.store

end Entry

namespace Run

variable {α : Type} (steps : α → List Step)

/-! ## The members of a block -/

/-- Induction over the members of a block as they run: what holds of the members from a store on
follows from what holds of the members after the first, from each store that these may meet. -/
theorem members_induction {motive : List (Item α) → Store → Prop} (nil : ∀ s, motive [] s)
    (block : ∀ items rest s, (∀ t, motive rest t) → motive (.block items :: rest) s)
    (fails : ∀ g rest s f t, Step.performAll (steps g) s = .error f t → motive (.glyph g :: rest) s)
    (leaves : ∀ g rest s t, Step.performAll (steps g) s = .ok .rollback t →
      motive (.glyph g :: rest) s)
    (proceeds : ∀ g rest s t, Step.performAll (steps g) s = .ok .proceed t → motive rest t →
      motive (.glyph g :: rest) s)
    (repeats : ∀ g rest s t, Step.performAll (steps g) s = .ok .again t → (∀ u, motive rest u) →
      motive (.glyph g :: rest) s)
    (items : List (Item α)) (s : Store) : motive items s := by
  induction items generalizing s with
  | nil => exact nil s
  | cons i rest ih =>
    cases i with
    | block items => exact block items rest s ih
    | glyph g =>
      cases hg : Step.performAll (steps g) s with
      | error f t => exact fails g rest s f t hg
      | ok a t =>
        cases a with
        | rollback => exact leaves g rest s t hg
        | proceed => exact proceeds g rest s t hg (ih t)
        | again => exact repeats g rest s t hg ih

/-! ## Chains of entries -/

/-- The entries lead from one store to another: the first glyph is executed on the first store, and
each further one on the store that the glyph before it left. -/
def Chained : Store → List (Entry α) → Store → Prop
  | s, [], t => t = s
  | s, e :: es, t => Step.performAll (steps e.glyph) s = e.result ∧ Chained e.store es t

variable {steps}

theorem Chained.append {s t u : Store} {es es' : List (Entry α)} (h : Chained steps s es t)
    (h' : Chained steps t es' u) : Chained steps s (es ++ es') u := by
  induction es generalizing s with
  | nil =>
    obtain rfl : t = s := h
    exact h'
  | cons e es ih => exact ⟨h.1, ih h.2⟩

theorem Chained.andThen {s : Store} {r : Run α} {k : Store → Run α}
    (h : Chained steps s r.trace r.store)
    (hk : ∀ t, Chained steps t (k t).trace (k t).store) :
    Chained steps s (r.andThen k).trace (r.andThen k).store := by
  unfold Run.andThen
  split
  · exact h
  · exact h.append (hk r.store)

theorem members_chained {recur : List (Item α) → Store → Run α}
    (hrec : ∀ items s, Chained steps s (recur items s).trace (recur items s).store)
    (whole items : List (Item α)) (s : Store) :
    Chained steps s (members steps recur whole items s).trace
      (members steps recur whole items s).store := by
  induction items generalizing s with
  | nil => rfl
  | cons i rest ih =>
    cases i with
    | block items => exact (hrec items s).andThen ih
    | glyph g =>
      unfold members
      split <;> rename_i hg
      · exact ⟨hg, rfl⟩
      · exact ⟨hg, rfl⟩
      · exact ⟨hg, ih _⟩
      · exact ⟨hg, (hrec whole _).andThen ih⟩

/-- **The entries of a run follow on each other**, from the store it begins with to the store it
leaves. -/
theorem block_chained (limit : Nat) (items : List (Item α)) (s : Store) :
    Chained steps s (block steps limit items s).trace (block steps limit items s).store := by
  induction limit generalizing items s with
  | zero => rfl
  | succ limit ih =>
    unfold block
    split
    · rfl
    · exact members_chained ih items items s

/-! ## Replaying a run -/

variable (steps)

/-- The store that the steps of a glyph leave, whether or not they end in a fault. -/
def effect (g : α) (s : Store) : Store :=
  match Step.performAll (steps g) s with
  | .ok _ t => t
  | .error _ t => t

/-- The store after some glyphs are executed one after the other, their answers left aside. -/
def replay (gs : List α) (s : Store) : Store := gs.foldl (fun t g => effect steps g t) s

@[simp] theorem replay_nil (s : Store) : replay steps [] s = s := rfl

@[simp] theorem replay_cons (g : α) (gs : List α) (s : Store) :
    replay steps (g :: gs) s = replay steps gs (effect steps g s) := rfl

theorem replay_append (gs hs : List α) (s : Store) :
    replay steps (gs ++ hs) s = replay steps hs (replay steps gs s) := List.foldl_append

/-- The glyphs that a run has executed, in order. -/
def executed (r : Run α) : List α := r.trace.map (·.glyph)

variable {steps}

theorem effect_of_result {e : Entry α} {s : Store}
    (h : Step.performAll (steps e.glyph) s = e.result) : effect steps e.glyph s = e.store := by
  unfold effect
  rw [h]
  unfold Entry.result
  cases e.outcome <;> rfl

theorem Chained.eq_replay {s t : Store} {es : List (Entry α)} (h : Chained steps s es t) :
    t = replay steps (es.map (·.glyph)) s := by
  induction es generalizing s with
  | nil => exact h
  | cons e es ih =>
    rw [List.map_cons, replay_cons, effect_of_result h.1]
    exact ih h.2

/-- **Replaying a run gives the store it leaves.** -/
theorem store_eq_replay (limit : Nat) (items : List (Item α)) (s : Store) :
    (block steps limit items s).store = replay steps (block steps limit items s).executed s :=
  (block_chained limit items s).eq_replay

end Run

end StrandScript
