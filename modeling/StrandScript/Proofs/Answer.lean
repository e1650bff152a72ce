import StrandScript.Proofs.BlockTree
import StrandScript.Proofs.Machine
import StrandScript.Run

/-!
# The answers of glyphs

What a glyph answers depends on its question steps alone: without one it always goes on, it has its
block repeated only where a question loops, and a single looping question either has the block
repeated or leaves it (`performAll_quiet`, `performAll_ne_again`, `performAll_asking`).

* `Run.Quiet`: a block without questions.
* `Run.LoopFree`: a block without questions that loop.
* `Run.Asking`: a glyph with one question, which loops.
-/

namespace StrandScript

namespace Machine

variable {α β : Type} {s t : Store}

theorem bind_eq_ok {x : Machine α} {f : α → Machine β} {b : β} :
    (x >>= f) s = .ok b t ↔ ∃ a u, x s = .ok a u ∧ f a u = .ok b t := by
  change EStateM.bind x f s = .ok b t ↔ _
  unfold EStateM.bind
  constructor
  · intro h
    cases hx : x s with
    | ok a u => exact ⟨a, u, rfl, by simpa [hx] using h⟩
    | error e u => simp [hx] at h
  · rintro ⟨a, u, hx, h⟩
    simp [hx, h]

theorem bind_eq_error {x : Machine α} {k : α → Machine β} {f : Fault} :
    (x >>= k) s = .error f t ↔ x s = .error f t ∨ ∃ a u, x s = .ok a u ∧ k a u = .error f t := by
  change EStateM.bind x k s = .error f t ↔ _
  unfold EStateM.bind
  cases x s with
  | ok a u => simp
  | error e u => simp

theorem pure_eq_ok {a b : α} : (pure a : Machine α) s = .ok b t ↔ a = b ∧ s = t := by
  constructor
  · intro h
    cases h
    exact ⟨rfl, rfl⟩
  · rintro ⟨rfl, rfl⟩
    rfl

theorem field_eq_ok {name : String} {o : Option α} {a : α} :
    field name o s = .ok a t ↔ o = some a ∧ s = t := by
  cases o with
  | none =>
    constructor
    · intro h
      cases h
    · rintro ⟨⟨⟩, -⟩
  | some b => rw [field, pure_eq_ok, Option.some.injEq]

end Machine

namespace Step

variable {st : Step} {ss : List Step} {before a : Answer} {s t : Store}

/-! ## One step -/

theorem ask_eq_ok (h : st.ask s = .ok a t) :
    a = .rollback ∨ ∃ r, st.repetition = some r ∧ a = if r = .loop then .again else .proceed := by
  unfold ask at h
  obtain ⟨yes, u, -, hrest⟩ := Machine.bind_eq_ok.mp h
  cases yes with
  | false => exact Or.inl (Machine.pure_eq_ok.mp hrest).1.symm
  | true =>
    rw [if_pos rfl] at hrest
    obtain ⟨r, v, hr, hlast⟩ := Machine.bind_eq_ok.mp hrest
    refine Or.inr ⟨r, (Machine.field_eq_ok.mp hr).1, ?_⟩
    cases r <;> exact (Machine.pure_eq_ok.mp hlast).1.symm

/-- A question settles the answer anew, every other step keeps it. -/
theorem perform_eq_ok (h : perform before st s = .ok a t) :
    st.role = some .question ∧
        (a = .rollback ∨
          ∃ r, st.repetition = some r ∧ a = if r = .loop then .again else .proceed) ∨
      st.role ≠ some .question ∧ a = before := by
  unfold perform at h
  obtain ⟨r, u, hfield, hrest⟩ := Machine.bind_eq_ok.mp h
  obtain ⟨hr, -⟩ := Machine.field_eq_ok.mp hfield
  cases r with
  | question => exact Or.inl ⟨hr, ask_eq_ok hrest⟩
  | data =>
    obtain ⟨_, _, -, hlast⟩ := Machine.bind_eq_ok.mp hrest
    exact Or.inr ⟨by simp [hr], (Machine.pure_eq_ok.mp hlast).1.symm⟩
  | other =>
    obtain ⟨_, _, -, hlast⟩ := Machine.bind_eq_ok.mp hrest
    exact Or.inr ⟨by simp [hr], (Machine.pure_eq_ok.mp hlast).1.symm⟩

/-! ## The steps of a glyph -/

theorem foldlM_perform_cons (h : (st :: ss).foldlM perform before s = .ok a t) :
    ∃ b u, perform before st s = .ok b u ∧ ss.foldlM perform b u = .ok a t := by
  rw [List.foldlM_cons] at h
  exact Machine.bind_eq_ok.mp h

theorem foldlM_perform_quiet (hss : ∀ st ∈ ss, st.role ≠ some .question)
    (h : ss.foldlM perform before s = .ok a t) : a = before := by
  induction ss generalizing before s with
  | nil => exact (Machine.pure_eq_ok.mp h).1.symm
  | cons st ss ih =>
    rw [List.forall_mem_cons] at hss
    obtain ⟨b, u, hst, hrest⟩ := foldlM_perform_cons h
    obtain ⟨hr, -⟩ | ⟨-, rfl⟩ := perform_eq_ok hst
    · exact absurd hr hss.1
    · exact ih hss.2 hrest

theorem foldlM_perform_ne_again
    (hss : ∀ st ∈ ss, st.role = some .question → st.repetition ≠ some .loop)
    (hbefore : before ≠ .again) (h : ss.foldlM perform before s = .ok a t) : a ≠ .again := by
  induction ss generalizing before s with
  | nil =>
    obtain ⟨rfl, -⟩ := Machine.pure_eq_ok.mp h
    exact hbefore
  | cons st ss ih =>
    rw [List.forall_mem_cons] at hss
    obtain ⟨b, u, hst, hrest⟩ := foldlM_perform_cons h
    refine ih hss.2 ?_ hrest
    obtain ⟨hr, rfl | ⟨r, hrep, rfl⟩⟩ | ⟨-, rfl⟩ := perform_eq_ok hst
    · exact Answer.noConfusion
    · have hloop := hss.1 hr
      rw [hrep, Ne, Option.some.injEq] at hloop
      rw [if_neg hloop]
      exact Answer.noConfusion
    · exact hbefore

theorem performAll_quiet (hss : ∀ st ∈ ss, st.role ≠ some .question)
    (h : performAll ss s = .ok a t) : a = .proceed :=
  foldlM_perform_quiet hss h

theorem performAll_ne_again
    (hss : ∀ st ∈ ss, st.role = some .question → st.repetition ≠ some .loop)
    (h : performAll ss s = .ok a t) : a ≠ .again :=
  foldlM_perform_ne_again hss Answer.noConfusion h

/-- The answer of a glyph with one question, which loops, is the answer of that question. -/
theorem performAll_asking {xs ys : List Step} (hrole : st.role = some .question)
    (hloop : st.repetition = some .loop) (hys : ∀ y ∈ ys, y.role ≠ some .question)
    (h : performAll (xs ++ st :: ys) s = .ok a t) : a = .again ∨ a = .rollback := by
  unfold performAll at h
  rw [List.foldlM_append] at h
  obtain ⟨b, u, -, hrest⟩ := Machine.bind_eq_ok.mp h
  obtain ⟨b', u', hst, hlast⟩ := foldlM_perform_cons hrest
  obtain rfl := foldlM_perform_quiet hys hlast
  obtain ⟨-, rfl | ⟨r, hrep, rfl⟩⟩ | ⟨hr, -⟩ := perform_eq_ok hst
  · exact Or.inr rfl
  · rw [hloop, Option.some.injEq] at hrep
    rw [← hrep]
    exact Or.inl rfl
  · exact absurd hrole hr

end Step

namespace Run

open Item

variable {α : Type} (steps : α → List Step)

/-! ## Blocks by their questions -/

/-- No glyph of the block has a question. -/
def Quiet (items : List (Item α)) : Prop :=
  ∀ g ∈ flatten items, ∀ st ∈ steps g, st.role ≠ some .question

/-- No question of the block loops. -/
def LoopFree (items : List (Item α)) : Prop :=
  ∀ g ∈ flatten items, ∀ st ∈ steps g, st.role = some .question → st.repetition ≠ some .loop

/-- The glyph has one question, and it loops. -/
def Asking (g : α) : Prop :=
  ∃ xs q ys, steps g = xs ++ q :: ys ∧ q.role = some .question ∧ q.repetition = some .loop ∧
    ∀ st ∈ xs ++ ys, st.role ≠ some .question

variable {steps} {g : α} {items rest : List (Item α)}

theorem Quiet.loopFree (h : Quiet steps items) : LoopFree steps items :=
  fun g hg st hst hr => absurd hr (h g hg st hst)

theorem quiet_glyph : Quiet steps (.glyph g :: rest) ↔
    (∀ st ∈ steps g, st.role ≠ some .question) ∧ Quiet steps rest := by
  unfold Quiet
  rw [flatten_glyph, List.forall_mem_cons]

theorem quiet_block :
    Quiet steps (.block items :: rest) ↔ Quiet steps items ∧ Quiet steps rest := by
  unfold Quiet
  rw [flatten_block, List.forall_mem_append]

theorem loopFree_glyph : LoopFree steps (.glyph g :: rest) ↔
    (∀ st ∈ steps g, st.role = some .question → st.repetition ≠ some .loop) ∧
      LoopFree steps rest := by
  unfold LoopFree
  rw [flatten_glyph, List.forall_mem_cons]

theorem loopFree_block :
    LoopFree steps (.block items :: rest) ↔ LoopFree steps items ∧ LoopFree steps rest := by
  unfold LoopFree
  rw [flatten_block, List.forall_mem_append]

theorem Asking.answer {s t : Store} {a : Answer} (h : Asking steps g)
    (hg : Step.performAll (steps g) s = .ok a t) : a = .again ∨ a = .rollback := by
  obtain ⟨xs, q, ys, hsteps, hrole, hloop, hother⟩ := h
  rw [hsteps] at hg
  exact Step.performAll_asking hrole hloop (fun y hy => hother y (List.mem_append_right _ hy)) hg

end Run

end StrandScript
