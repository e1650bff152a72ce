import StrandScript.Proofs.Answer
import StrandScript.Proofs.StraightRun

/-!
# The calls of a run

To run a block is to call for the blocks inside it, and for the block itself once more where a glyph
has it repeated. A run depends on its limit only through the calls that it makes.

* `Run.calls`: the calls that a run makes, each by the way down to it from the outermost call. A
  call that the limit refuses is among them.
* `Run.block_eq_of_calls`: all limits that are above the calls of a run give the same run.
* `Run.length_lt_of_fault`: a run that is not cut short by its limit keeps below it.
* `Run.calls_lt_nesting`: without loops the calls go no deeper than the block is nested.
-/

namespace StrandScript.Run

open Item

variable {α : Type}

theorem andThen_trace {r : Run α} (k : Store → Run α) (h : r.fault = none) :
    (r.andThen k).trace = r.trace ++ (k r.store).trace := by
  unfold andThen
  rw [h]

theorem andThen_fault_eq_none {r : Run α} {k : Store → Run α} (h : (r.andThen k).fault = none) :
    r.fault = none ∧ (k r.store).fault = none := by
  cases hf : r.fault with
  | some f =>
    rw [andThen_of_fault k hf, hf] at h
    cases h
  | none => exact ⟨rfl, by rwa [andThen_fault k hf] at h⟩

variable (steps : α → List Step)

/-- How one call comes out of another: for a block inside, or for the same block again. -/
inductive Descent where
  | inside | again
deriving Repr, DecidableEq

/-- What follows on a run, unless it failed. -/
def unlessFailed (r : Run α) (later : Store → List (List Descent)) : List (List Descent) :=
  if r.fault.isNone then later r.store else []

/-- The calls of a member that is called for, and after it those of what follows. -/
def callsThen (d : Descent) (cs : List (List Descent)) (r : Run α)
    (later : Store → List (List Descent)) : List (List Descent) :=
  cs.map (d :: ·) ++ r.unlessFailed later

/-- The calls made for the members of a block, which are run as in `Run.members`. -/
def memberCalls (recur : List (Item α) → Store → Run α)
    (inner : List (Item α) → Store → List (List Descent)) (whole : List (Item α)) :
    List (Item α) → Store → List (List Descent)
  | [], _ => []
  | .block items :: rest, s =>
    callsThen .inside (inner items s) (recur items s) (memberCalls recur inner whole rest)
  | .glyph g :: rest, s =>
    match Step.performAll (steps g) s with
    | .error _ _ => []
    | .ok .rollback _ => []
    | .ok .proceed t => memberCalls recur inner whole rest t
    | .ok .again t =>
      callsThen .again (inner whole t) (recur whole t) (memberCalls recur inner whole rest)

/-- The calls that running a block makes, itself first, in the order in which they are made. -/
def calls : Nat → List (Item α) → Store → List (List Descent)
  | 0, _, _ => [[]]
  | limit + 1, items, s =>
    [] :: match s.saveable with
      | .error _ => []
      | .ok () => memberCalls steps (block steps limit) (calls limit) items items s

variable {steps} {limit : Nat} {items : List (Item α)} {s : Store}

theorem nil_mem_calls (limit : Nat) (items : List (Item α)) (s : Store) :
    [] ∈ calls steps limit items s := by
  cases limit <;> simp [calls]

theorem mem_callsThen {d : Descent} {cs : List (List Descent)} {r : Run α}
    {later : Store → List (List Descent)} {p : List Descent} :
    p ∈ callsThen d cs r later ↔
      (∃ q ∈ cs, d :: q = p) ∨ r.fault = none ∧ p ∈ later r.store := by
  unfold callsThen unlessFailed
  rw [List.mem_append, List.mem_map]
  cases r.fault <;> simp

theorem unlessFailed_of_fault {r : Run α} (later : Store → List (List Descent))
    (h : r.fault = none) : r.unlessFailed later = later r.store := by
  simp [unlessFailed, h]

/-! ## Calls and limits -/

section Agreement

variable {recur recur' : List (Item α) → Store → Run α}
  {inner : List (Item α) → Store → List (List Descent)} {l : Nat}

/-- Two runs one after the other, both made with other means of recursion that agree on them. -/
theorem andThen_congr_of_calls {d : Descent} {r r' : Run α} {cs : List (List Descent)}
    {later : Store → List (List Descent)} {k k' : Store → Run α}
    (hr : (∀ p ∈ cs, p.length < l) → r' = r)
    (hk : ∀ t, (∀ p ∈ later t, p.length < l + 1) → k' t = k t)
    (h : ∀ p ∈ callsThen d cs r later, p.length < l + 1) : r'.andThen k' = r.andThen k := by
  obtain rfl : r' = r := hr fun p hp => by
    have := h (d :: p) (mem_callsThen.mpr (Or.inl ⟨p, hp, rfl⟩))
    simpa using this
  cases hf : r'.fault with
  | some f => rw [andThen_of_fault _ hf, andThen_of_fault _ hf]
  | none =>
    have := hk r'.store fun p hp => h p (mem_callsThen.mpr (Or.inr ⟨hf, hp⟩))
    simp only [andThen, hf, this]

theorem members_eq_of_calls (whole : List (Item α))
    (hrec : ∀ items s, (∀ p ∈ inner items s, p.length < l) → recur' items s = recur items s)
    (h : ∀ p ∈ memberCalls steps recur inner whole items s, p.length < l + 1) :
    members steps recur' whole items s = members steps recur whole items s := by
  induction items, s using members_induction steps with
  | nil s => rfl
  | block items rest s ih => exact andThen_congr_of_calls (hrec items s) ih h
  | fails g rest s f t hg => simp only [members, hg]
  | leaves g rest s t hg => simp only [members, hg]
  | proceeds g rest s t hg ih =>
    simp only [memberCalls, hg] at h
    simp only [members, hg, ih h]
  | repeats g rest s t hg ih =>
    simp only [memberCalls, hg] at h
    simp only [members, hg]
    exact congrArg (after _) (andThen_congr_of_calls (hrec whole t) ih h)

end Agreement

/-- **Limits above the calls make no difference.** When no call of a run nests as deep as `l`, every
limit from `l` on gives the same run. -/
theorem block_eq_of_calls {l limit' : Nat} (h : ∀ p ∈ calls steps limit items s, p.length < l)
    (hl : l ≤ limit) (hl' : l ≤ limit') :
    block steps limit' items s = block steps limit items s := by
  induction limit generalizing l limit' items s with
  | zero =>
    have := h [] (nil_mem_calls 0 items s)
    omega
  | succ limit ih =>
    have hpos := h [] (nil_mem_calls (limit + 1) items s)
    obtain ⟨l, rfl⟩ : ∃ k, l = k + 1 := ⟨l - 1, by simp at hpos; omega⟩
    obtain ⟨limit', rfl⟩ : ∃ k, limit' = k + 1 := ⟨limit' - 1, by omega⟩
    unfold calls at h
    unfold block
    cases hs : s.saveable with
    | error f => rfl
    | ok =>
      rw [hs] at h
      exact members_eq_of_calls items
        (fun items s hcalls => ih hcalls (by omega) (by omega))
        fun p hp => h p (List.mem_cons_of_mem _ hp)

section Refusal

variable {recur : List (Item α) → Store → Run α}
  {inner : List (Item α) → Store → List (List Descent)} {l : Nat}

theorem callsThen_lt {d : Descent} {r : Run α} {cs : List (List Descent)}
    {later : Store → List (List Descent)} {k : Store → Run α}
    (hr : r.fault ≠ some .tooDeep → ∀ p ∈ cs, p.length < l)
    (hk : ∀ t, (k t).fault ≠ some .tooDeep → ∀ p ∈ later t, p.length < l + 1)
    (h : (r.andThen k).fault ≠ some .tooDeep) : ∀ p ∈ callsThen d cs r later, p.length < l + 1 := by
  intro p hp
  obtain ⟨q, hq, rfl⟩ | ⟨hf, hp⟩ := mem_callsThen.mp hp
  · have hfault : r.fault ≠ some .tooDeep := by
      intro hf
      rw [andThen_of_fault _ hf] at h
      exact h hf
    simpa using hr hfault q hq
  · rw [andThen_fault _ hf] at h
    exact hk r.store h p hp

theorem memberCalls_lt (whole : List (Item α))
    (hrec : ∀ items s, (recur items s).fault ≠ some .tooDeep → ∀ p ∈ inner items s, p.length < l)
    (h : (members steps recur whole items s).fault ≠ some .tooDeep) :
    ∀ p ∈ memberCalls steps recur inner whole items s, p.length < l + 1 := by
  induction items, s using members_induction steps with
  | nil s => simp [memberCalls]
  | block items rest s ih => exact callsThen_lt (hrec items s) ih h
  | fails g rest s f t hg => simp [memberCalls, hg]
  | leaves g rest s t hg => simp [memberCalls, hg]
  | proceeds g rest s t hg ih =>
    simp only [members, hg] at h
    simpa only [memberCalls, hg] using ih h
  | repeats g rest s t hg ih =>
    simp only [members, hg] at h
    simpa only [memberCalls, hg] using callsThen_lt (hrec whole t) ih h

end Refusal

/-- A run that does not end because calls nest too deep keeps its calls below the limit. -/
theorem length_lt_of_fault (h : (block steps limit items s).fault ≠ some .tooDeep) :
    ∀ p ∈ calls steps limit items s, p.length < limit := by
  induction limit generalizing items s with
  | zero => exact absurd rfl h
  | succ limit ih =>
    unfold block at h
    unfold calls
    rw [List.forall_mem_cons]
    refine ⟨Nat.succ_pos limit, ?_⟩
    cases hs : s.saveable with
    | error f => simp
    | ok =>
      rw [hs] at h
      exact memberCalls_lt items (fun items s hf => ih hf) h

/-! ## Calls without loops -/

theorem memberCalls_lt_nesting {recur : List (Item α) → Store → Run α}
    {inner : List (Item α) → Store → List (List Descent)} (whole : List (Item α))
    (hrec : ∀ items s, LoopFree steps items → ∀ p ∈ inner items s, p.length < nesting items)
    (h : LoopFree steps items) :
    ∀ p ∈ memberCalls steps recur inner whole items s, p.length < nesting items := by
  induction items, s using members_induction steps with
  | nil s => simp [memberCalls]
  | block items rest s ih =>
    obtain ⟨hitems, hrest⟩ := loopFree_block.mp h
    intro p hp
    rw [nesting_block]
    obtain ⟨q, hq, rfl⟩ | ⟨-, hp⟩ := mem_callsThen.mp hp
    · have := hrec items s hitems q hq
      rw [List.length_cons]
      omega
    · have := ih _ hrest p hp
      omega
  | fails g rest s f t hg => simp [memberCalls, hg]
  | leaves g rest s t hg => simp [memberCalls, hg]
  | proceeds g rest s t hg ih =>
    simpa only [memberCalls, hg, nesting_glyph] using ih (loopFree_glyph.mp h).2
  | repeats g rest s t hg ih =>
    exact absurd rfl (Step.performAll_ne_again (loopFree_glyph.mp h).1 hg)

/-- **Without loops a run calls no deeper than its block is nested.** -/
theorem calls_lt_nesting (limit : Nat) (s : Store) (h : LoopFree steps items) :
    ∀ p ∈ calls steps limit items s, p.length < nesting items := by
  induction limit generalizing items s with
  | zero =>
    have := nesting_pos items
    simp [calls]
    omega
  | succ limit ih =>
    unfold calls
    rw [List.forall_mem_cons]
    refine ⟨nesting_pos items, ?_⟩
    cases s.saveable with
    | error f => simp
    | ok => exact memberCalls_lt_nesting items (fun items s hitems => ih s hitems) h

end StrandScript.Run
