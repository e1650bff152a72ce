import Mathlib.Data.List.Forall2

/-!
# Computations that may fail

How a composed computation comes to its result or to its fault, two lemmas for each way of
composing: in sequence (`bind_eq_ok`, `bind_eq_error`), on every member of a list (`mapM_eq_ok`,
`mapM_eq_error`), and on every member for the fault alone (`forM_eq_ok`, `forM_eq_error`). Two
computations whose parts give the same in another form do so as a whole (`bind_map`, `mapM_map`).
-/

namespace StrandScript.Outcome

variable {ε α β : Type}

theorem bind_eq_ok {x : Except ε α} {f : α → Except ε β} {b : β} :
    x >>= f = .ok b ↔ ∃ a, x = .ok a ∧ f a = .ok b := by
  constructor
  · intro h
    cases x with
    | error e => cases h
    | ok a => exact ⟨a, rfl, h⟩
  · rintro ⟨a, rfl, h⟩
    exact h

theorem bind_eq_error {x : Except ε α} {f : α → Except ε β} {e : ε} :
    x >>= f = .error e ↔ x = .error e ∨ ∃ a, x = .ok a ∧ f a = .error e := by
  cases x with
  | error e' => simp [bind, Except.bind]
  | ok a => simp [bind, Except.bind]

/-- If both parts can fail with one fault only, it does not matter which of them does. -/
theorem bind_eq_error_of_unique {x : Except ε α} {f : α → Except ε β} {P Q : Prop} {e₀ e : ε}
    (hx : ∀ e, x = .error e ↔ e = e₀ ∧ P)
    (hf : ∀ a, x = .ok a → (f a = .error e ↔ e = e₀ ∧ Q)) :
    x >>= f = .error e ↔ e = e₀ ∧ (P ∨ Q) := by
  cases x with
  | error e' =>
    obtain ⟨rfl, hP⟩ := (hx e').mp rfl
    simp [bind, Except.bind, hP, eq_comm]
  | ok a =>
    have hP : ¬ P := fun hP => by
      cases (hx e₀).mpr ⟨rfl, hP⟩
    rw [or_iff_right hP, ← hf a rfl]
    rfl

theorem toOption_eq_some {x : Except ε α} {a : α} : x.toOption = some a ↔ x = .ok a := by
  cases x with
  | error e => simp [Except.toOption]
  | ok b => simp [Except.toOption]

theorem toOption_bind (x : Except ε α) (f : α → Except ε β) :
    (x >>= f).toOption = x.toOption.bind fun a => (f a).toOption := by
  cases x with
  | error e => rfl
  | ok a => rfl

theorem map_eq_ok {x : Except ε α} {f : α → β} {b : β} :
    x.map f = .ok b ↔ ∃ a, x = .ok a ∧ f a = b := by
  cases x with
  | error e => simp [Except.map]
  | ok a => simp [Except.map]

theorem isOk_iff {x : Except ε α} : x.isOk = true ↔ ∀ e, x ≠ .error e := by
  cases x <;> simp [Except.isOk, Except.toBool]

theorem mapM_eq_ok {f : α → Except ε β} {xs : List α} {ys : List β} :
    xs.mapM f = .ok ys ↔ List.Forall₂ (fun x y => f x = .ok y) xs ys := by
  induction xs generalizing ys with
  | nil =>
    rw [List.mapM_nil, List.forall₂_nil_left_iff]
    exact ⟨fun h => by cases h; rfl, fun h => by rw [h]; rfl⟩
  | cons x xs ih =>
    rw [List.mapM_cons, bind_eq_ok, List.forall₂_cons_left_iff]
    constructor
    · rintro ⟨y, hy, h⟩
      obtain ⟨zs, hzs, h⟩ := bind_eq_ok.mp h
      cases h
      exact ⟨y, zs, hy, ih.mp hzs, rfl⟩
    · rintro ⟨y, zs, hy, hzs, rfl⟩
      exact ⟨y, hy, bind_eq_ok.mpr ⟨zs, ih.mpr hzs, rfl⟩⟩

/-- The first member that fails settles the fault. -/
theorem mapM_eq_error {f : α → Except ε β} {xs : List α} {e : ε} :
    xs.mapM f = .error e ↔
      ∃ pre x post, xs = pre ++ x :: post ∧ (∀ y ∈ pre, ∃ b, f y = .ok b) ∧ f x = .error e := by
  induction xs with
  | nil =>
    rw [List.mapM_nil]
    constructor
    · intro h
      cases h
    · rintro ⟨pre, x, post, h, -⟩
      simp at h
  | cons x xs ih =>
    rw [List.mapM_cons, bind_eq_error]
    constructor
    · rintro (hx | ⟨b, hb, h⟩)
      · exact ⟨[], x, xs, rfl, by simp, hx⟩
      · obtain hxs | ⟨ys, -, h⟩ := bind_eq_error.mp h
        · obtain ⟨pre, y, post, rfl, hpre, hy⟩ := ih.mp hxs
          exact ⟨x :: pre, y, post, rfl, List.forall_mem_cons.mpr ⟨⟨b, hb⟩, hpre⟩, hy⟩
        · cases h
    · rintro ⟨pre, y, post, hsplit, hpre, hy⟩
      cases pre with
      | nil =>
        obtain ⟨rfl, -⟩ := List.cons.inj hsplit
        exact Or.inl hy
      | cons x' pre =>
        obtain ⟨rfl, hxs⟩ := List.cons.inj hsplit
        rw [List.forall_mem_cons] at hpre
        obtain ⟨⟨b, hb⟩, hpre⟩ := hpre
        exact Or.inr ⟨b, hb, bind_eq_error.mpr (Or.inl (ih.mpr ⟨pre, y, post, hxs, hpre, hy⟩))⟩

/-- If the members can fail with one fault only, it does not matter which is the first that does. -/
theorem mapM_eq_error_of_unique {f : α → Except ε β} {P : α → Prop} {e₀ e : ε} {xs : List α}
    (h : ∀ x ∈ xs, ∀ e, f x = .error e ↔ e = e₀ ∧ P x) :
    xs.mapM f = .error e ↔ e = e₀ ∧ ∃ x ∈ xs, P x := by
  induction xs generalizing e with
  | nil => simp [pure, Except.pure]
  | cons x xs ih =>
    rw [List.forall_mem_cons] at h
    rw [List.mapM_cons, List.exists_mem_cons_iff]
    refine bind_eq_error_of_unique h.1 fun y _ => ?_
    rw [← ih h.2, bind_eq_error]
    simp [pure, Except.pure]

/-- If a computation gives what another one gives, under a condition on the result, then so it is
for all members of a list. -/
theorem mapM_eq_ok_and {f f' : α → Except ε β} {P : β → Prop} {xs : List α} {ys : List β}
    (h : ∀ x ∈ xs, ∀ y, f x = .ok y ↔ f' x = .ok y ∧ P y) :
    xs.mapM f = .ok ys ↔ xs.mapM f' = .ok ys ∧ ∀ y ∈ ys, P y := by
  rw [mapM_eq_ok, mapM_eq_ok]
  induction xs generalizing ys with
  | nil =>
    rw [List.forall₂_nil_left_iff, List.forall₂_nil_left_iff]
    exact ⟨fun hys => ⟨hys, by simp [hys]⟩, fun hys => hys.1⟩
  | cons x xs ih =>
    rw [List.forall_mem_cons] at h
    cases ys with
    | nil => simp
    | cons y ys =>
      rw [List.forall₂_cons, List.forall₂_cons, List.forall_mem_cons, h.1, ih h.2]
      tauto

/-- Every result comes from a member. -/
theorem exists_of_mem_mapM {f : α → Except ε β} {xs : List α} {ys : List β} (h : xs.mapM f = .ok ys)
    {y : β} (hy : y ∈ ys) : ∃ x ∈ xs, f x = .ok y := by
  have hall := mapM_eq_ok.mp h
  clear h
  induction hall with
  | nil => cases hy
  | cons hx _ ih =>
    rcases List.mem_cons.mp hy with rfl | hy
    · exact ⟨_, List.mem_cons_self, hx⟩
    · obtain ⟨x, hmem, hf⟩ := ih hy
      exact ⟨x, List.mem_cons_of_mem _ hmem, hf⟩

theorem forM_eq_ok {f : α → Except ε Unit} {xs : List α} :
    xs.forM f = .ok () ↔ ∀ x ∈ xs, f x = .ok () := by
  induction xs with
  | nil => exact ⟨fun _ x hx => (List.not_mem_nil hx).elim, fun _ => rfl⟩
  | cons x xs ih =>
    change (f x >>= fun _ => xs.forM f) = .ok () ↔ _
    rw [bind_eq_ok, List.forall_mem_cons, ← ih]
    exact ⟨fun ⟨_, h⟩ => h, fun h => ⟨(), h⟩⟩

theorem forM_eq_error {f : α → Except ε Unit} {xs : List α} {e : ε} (h : xs.forM f = .error e) :
    ∃ x ∈ xs, f x = .error e := by
  induction xs with
  | nil => cases h
  | cons x xs ih =>
    change (f x >>= fun _ => xs.forM f) = .error e at h
    cases hx : f x with
    | error e' =>
      rw [hx] at h
      cases h
      exact ⟨x, List.mem_cons_self, hx⟩
    | ok =>
      rw [hx] at h
      obtain ⟨y, hy, hf⟩ := ih h
      exact ⟨y, List.mem_cons_of_mem _ hy, hf⟩

/-! ## Computations with a state -/

theorem run_bind_ok {σ : Type} {x : EStateM ε σ α} {f : α → EStateM ε σ β} {s t : σ} {a : α}
    (h : x s = .ok a t) : (x >>= f) s = f a t := by
  change EStateM.bind x f s = f a t
  unfold EStateM.bind
  rw [h]

/-! ## Computations that go the same way -/

section Map

variable {α' β' : Type}

/-- If the first part of a computation gives its result in another form, and the second part takes
it and gives its own in another form, so does the whole. -/
theorem bind_map {x : Except ε α} {x' : Except ε α'} {f : α → Except ε β} {f' : α' → Except ε β'}
    {φ : α → α'} {ψ : β → β'} (hx : x' = x.map φ) (hf : ∀ a, f' (φ a) = (f a).map ψ) :
    x' >>= f' = (x >>= f).map ψ := by
  subst hx
  cases x with
  | error e => rfl
  | ok a => exact hf a

theorem bind_map_same {x : Except ε α} {f : α → Except ε β} {f' : α → Except ε β'} {ψ : β → β'}
    (hf : ∀ a, f' a = (f a).map ψ) : x >>= f' = (x >>= f).map ψ := by
  cases x with
  | error e => rfl
  | ok a => exact hf a

theorem mapM_congr {f f' : α → Except ε β} {xs : List α} (h : ∀ x ∈ xs, f x = f' x) :
    xs.mapM f = xs.mapM f' := by
  induction xs with
  | nil => rfl
  | cons x xs ih =>
    rw [List.forall_mem_cons] at h
    rw [List.mapM_cons, List.mapM_cons, h.1, ih h.2]

theorem mapM_map {f : α → Except ε β} {f' : α' → Except ε β'} {φ : α → α'} {ψ : β → β'}
    (hf : ∀ a, f' (φ a) = (f a).map ψ) (xs : List α) :
    (xs.map φ).mapM f' = (xs.mapM f).map (·.map ψ) := by
  induction xs with
  | nil => rfl
  | cons x xs ih =>
    rw [List.map_cons, List.mapM_cons, List.mapM_cons]
    exact bind_map (hf x) fun y => bind_map ih fun ys => rfl

end Map

end StrandScript.Outcome
