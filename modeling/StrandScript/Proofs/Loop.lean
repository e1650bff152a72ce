import StrandScript.Proofs.Rollback
import StrandScript.Proofs.Skipping

/-!
# What a loop executes

A glyph whose question loops has its whole block run once more each time the question is answered
with yes, and the members after it run only when that is over. So the members up to that glyph run
once more than the question is answered with yes, and after them the members behind it as often as
it is (`loop_run`).

* `Run.asked`: what the executions of a glyph in a run came to.
* `Run.loop_turn`: one turn of a loop.
-/

namespace StrandScript

namespace Item

variable {α : Type}

theorem nesting_append (xs ys : List (Item α)) :
    nesting (xs ++ ys) = max (nesting xs) (nesting ys) := by
  induction xs with
  | nil =>
    have := nesting_pos ys
    rw [List.nil_append, nesting_nil]
    omega
  | cons i xs ih =>
    cases i with
    | glyph a => simpa using ih
    | block items =>
      rw [List.cons_append, nesting_block, nesting_block, ih]
      omega

end Item

namespace Run

open Item

variable {α : Type} {steps : α → List Step} {limit : Nat} {s : Store}

/-! ## Members without questions -/

theorem after_andThen (e : Entry α) (r : Run α) (k : Store → Run α) :
    (r.after e).andThen k = (r.andThen k).after e := by
  unfold andThen
  cases hf : r.fault <;> simp [after, hf]

theorem andThen_assoc (r : Run α) (k k' : Store → Run α) :
    (r.andThen k).andThen k' = r.andThen fun t => (k t).andThen k' := by
  cases hf : r.fault with
  | some f => rw [andThen_of_fault _ hf, andThen_of_fault _ hf, andThen_of_fault _ hf]
  | none =>
    cases hk : (k r.store).fault <;> simp [andThen, hf, hk]

section Quiet

variable {recur : List (Item α) → Store → Run α}
  {inner : List (Item α) → Store → List (List Descent)} {whole pre : List (Item α)}

/-- Induction over members without questions as they run: a glyph of theirs fails or lets the next
member have its turn. -/
@[elab_as_elim]
theorem quiet_induction {motive : List (Item α) → Store → Prop} (h : Quiet steps pre) (s : Store)
    (nil : ∀ s, motive [] s)
    (block : ∀ items rest s, Quiet steps items → (∀ t, motive rest t) →
      motive (.block items :: rest) s)
    (fails : ∀ g rest s f t, Step.performAll (steps g) s = .error f t → motive (.glyph g :: rest) s)
    (proceeds : ∀ g rest s t, Step.performAll (steps g) s = .ok .proceed t → motive rest t →
      motive (.glyph g :: rest) s) : motive pre s := by
  induction pre, s using members_induction steps with
  | nil s => exact nil s
  | block items rest s ih =>
    obtain ⟨hitems, hrest⟩ := quiet_block.mp h
    exact block items rest s hitems fun t => ih t hrest
  | fails g rest s f t hg => exact fails g rest s f t hg
  | leaves g rest s t hg => cases Step.performAll_quiet (quiet_glyph.mp h).1 hg
  | proceeds g rest s t hg ih => exact proceeds g rest s t hg (ih (quiet_glyph.mp h).2)
  | repeats g rest s t hg ih => cases Step.performAll_quiet (quiet_glyph.mp h).1 hg

theorem members_append (rest : List (Item α)) (h : Quiet steps pre) :
    members steps recur whole (pre ++ rest) s =
      (members steps recur whole pre s).andThen (members steps recur whole rest) := by
  refine quiet_induction h s ?nil ?block ?fails ?proceeds
  case nil => exact fun s => rfl
  case block =>
    intro items pre s _ ih
    rw [List.cons_append, members, members, andThen_assoc]
    exact congrArg _ (funext ih)
  case fails =>
    intro g pre s f t hg
    simp only [List.cons_append, members, hg]
    rfl
  case proceeds =>
    intro g pre s t hg ih
    simp only [List.cons_append, members, hg, ih, after_andThen]

theorem unlessFailed_andThen (r : Run α) (k : Store → Run α)
    (later : Store → List (List Descent)) :
    (r.andThen k).unlessFailed later = r.unlessFailed fun t => (k t).unlessFailed later := by
  unfold unlessFailed
  cases hf : r.fault with
  | some f => simp [andThen_of_fault k hf, hf]
  | none => simp [andThen, hf]

theorem memberCalls_append (rest : List (Item α)) (h : Quiet steps pre) :
    memberCalls steps recur inner whole (pre ++ rest) s =
      memberCalls steps recur inner whole pre s ++
        (members steps recur whole pre s).unlessFailed
          (memberCalls steps recur inner whole rest) := by
  refine quiet_induction h s ?nil ?block ?fails ?proceeds
  case nil => exact fun s => rfl
  case block =>
    intro items pre s _ ih
    rw [List.cons_append, memberCalls, memberCalls, members, unlessFailed_andThen]
    cases hf : (recur items s).fault <;> simp [callsThen, unlessFailed, hf, ih]
  case fails =>
    intro g pre s f t hg
    simp only [List.cons_append, memberCalls, members, hg]
    rfl
  case proceeds =>
    intro g pre s t hg ih
    simp only [List.cons_append, memberCalls, members, hg, ih]
    rfl

/-- Members without questions call for blocks inside only. -/
theorem head_of_mem_memberCalls (h : Quiet steps pre) :
    ∀ p ∈ memberCalls steps recur inner whole pre s, p.head? = some .inside := by
  refine quiet_induction h s ?nil ?block ?fails ?proceeds
  case nil => simp [memberCalls]
  case block =>
    intro items pre s _ ih p hp
    obtain ⟨q, -, rfl⟩ | ⟨-, hp⟩ := mem_callsThen.mp hp
    · rfl
    · exact ih _ p hp
  case fails =>
    intro g pre s f t hg
    simp [memberCalls, hg]
  case proceeds =>
    intro g pre s t hg ih
    simpa only [memberCalls, hg] using ih

theorem members_quiet (hrec : ∀ items s, Quiet steps items → (recur items s).fault = none →
      (recur items s).executed = flatten items) (h : Quiet steps pre)
    (hf : (members steps recur whole pre s).fault = none) :
    (members steps recur whole pre s).executed = flatten pre := by
  revert hf
  refine quiet_induction h s ?nil ?block ?fails ?proceeds
  case nil =>
    intro s _
    rw [flatten_nil]
    rfl
  case block =>
    intro items pre s hitems ih hf
    rw [members] at hf ⊢
    obtain ⟨hf₁, hf₂⟩ := andThen_fault_eq_none hf
    rw [andThen_executed _ hf₁, hrec items s hitems hf₁, ih _ hf₂, flatten_block]
  case fails =>
    intro g pre s f t hg hf
    simp [members, hg] at hf
  case proceeds =>
    intro g pre s t hg ih hf
    simp only [members, hg] at hf ⊢
    rw [flatten_glyph, ← ih hf]
    rfl

end Quiet

/-- A block without questions is run straight through, unless it fails. -/
theorem block_quiet (limit : Nat) (items : List (Item α)) (s : Store) (h : Quiet steps items)
    (hf : (block steps limit items s).fault = none) :
    (block steps limit items s).executed = flatten items := by
  induction limit generalizing items s with
  | zero => cases hf
  | succ limit ih =>
    unfold block at hf ⊢
    cases hs : s.saveable with
    | error f =>
      rw [hs] at hf
      cases hf
    | ok =>
      rw [hs] at hf
      exact members_quiet ih h hf

/-! ## Turns of a loop -/

variable {whole pre post : List (Item α)} {w : α}

/-- The call is for a block inside and goes no deeper than `items` are nested. -/
def GoesInside (items : List (Item α)) (p : List Descent) : Prop :=
  p.head? = some .inside ∧ p.length < nesting items

theorem memberCalls_goInside (l : Nat) (s : Store) (h : Quiet steps pre)
    (hle : nesting pre ≤ nesting whole) :
    ∀ p ∈ memberCalls steps (block steps l) (calls steps l) whole pre s, GoesInside whole p := by
  intro p hp
  have hlt := memberCalls_lt_nesting whole
    (fun _ s hitems => calls_lt_nesting l s hitems) h.loopFree p hp
  exact ⟨head_of_mem_memberCalls h p hp, by omega⟩

/-- In a run that does not fail the members without questions at the front run to their end, and the
others go on from there. -/
theorem block_front {rest : List (Item α)} (hwhole : whole = pre ++ rest) (hpre : Quiet steps pre)
    (hf : (block steps limit whole s).fault = none) :
    ∃ (l : Nat) (r : Run α), limit = l + 1 ∧ r.executed = flatten pre ∧
      (members steps (block steps l) whole rest r.store).fault = none ∧
      (block steps limit whole s).trace =
        r.trace ++ (members steps (block steps l) whole rest r.store).trace ∧
      calls steps limit whole s =
        [] :: (memberCalls steps (block steps l) (calls steps l) whole pre s ++
          memberCalls steps (block steps l) (calls steps l) whole rest r.store) := by
  cases limit with
  | zero => cases hf
  | succ l =>
    cases hs : s.saveable with
    | error f =>
      rw [block, hs] at hf
      cases hf
    | ok =>
      have hblock : block steps (l + 1) whole s =
          (members steps (block steps l) whole pre s).andThen
            (members steps (block steps l) whole rest) := by
        rw [block, hs, ← members_append _ hpre, ← hwhole]
      rw [hblock] at hf ⊢
      obtain ⟨hf₁, hf₂⟩ := andThen_fault_eq_none hf
      refine ⟨l, members steps (block steps l) whole pre s, rfl,
        members_quiet (block_quiet l) hpre hf₁, hf₂, andThen_trace _ hf₁, ?_⟩
      have hmember : memberCalls steps (block steps l) (calls steps l) whole (pre ++ rest) s = _ :=
        memberCalls_append rest hpre
      rw [← hwhole, unlessFailed_of_fault _ hf₁] at hmember
      rw [calls, hs]
      exact congrArg _ hmember

/-- The members of `pre` run and then `w`, which leaves the block. -/
def Leaves (pre : List (Item α)) (w : α) (post : List (Item α)) (r : Run α)
    (cs : List (List Descent)) : Prop :=
  ∃ es t cs₁, es.map (·.glyph) = flatten pre ∧ r.trace = es ++ [⟨w, .ok .rollback, t⟩] ∧
    (∀ p ∈ cs₁, GoesInside (pre ++ .glyph w :: post) p) ∧ cs = [] :: cs₁

/-- The members of `pre` run and then `w`, which has the block run once more; after that run, with
its own calls, the members of `post` follow. -/
def Repeats (pre : List (Item α)) (w : α) (post : List (Item α)) (r : Run α)
    (cs : List (List Descent)) (again : Run α) (cs' : List (List Descent)) : Prop :=
  ∃ es es' t cs₁ cs₂, es.map (·.glyph) = flatten pre ∧ es'.map (·.glyph) = flatten post ∧
    r.trace = es ++ ⟨w, .ok .again, t⟩ :: (again.trace ++ es') ∧
    (∀ p ∈ cs₁ ++ cs₂, GoesInside (pre ++ .glyph w :: post) p) ∧
    cs = [] :: (cs₁ ++ (cs'.map (.again :: ·) ++ cs₂))

/-- **One turn of a loop** that does not fail leaves the block or has it run once more. -/
theorem loop_turn (hwhole : whole = pre ++ .glyph w :: post) (hpre : Quiet steps pre)
    (hpost : Quiet steps post) (hw : Asking steps w)
    (hf : (block steps limit whole s).fault = none) :
    Leaves pre w post (block steps limit whole s) (calls steps limit whole s) ∨
      ∃ l t, (block steps l whole t).fault = none ∧
        Repeats pre w post (block steps limit whole s) (calls steps limit whole s)
          (block steps l whole t) (calls steps l whole t) := by
  have hnest : nesting whole = max (nesting pre) (nesting post) := by
    rw [hwhole, nesting_append, nesting_glyph]
  obtain ⟨l, r, rfl, hexec, hrest, htrace, hcalls⟩ := block_front hwhole hpre hf
  have hbefore := memberCalls_goInside l s hpre (by omega : nesting pre ≤ nesting whole)
  rw [members] at hrest htrace
  rw [memberCalls] at hcalls
  cases hg : Step.performAll (steps w) r.store with
  | error f t =>
    rw [hg] at hrest
    cases hrest
  | ok a t =>
    rw [hg] at hrest htrace hcalls
    obtain rfl | rfl := hw.answer hg
    · obtain ⟨hagain, hlater⟩ := andThen_fault_eq_none hrest
      have hafter := memberCalls_goInside l (block steps l whole t).store hpost
        (by omega : nesting post ≤ nesting whole)
      simp only [after, andThen_trace _ hagain] at htrace
      simp only [callsThen, unlessFailed_of_fault _ hagain] at hcalls
      refine Or.inr ⟨l, t, hagain, _, _, t, _, _, hexec,
        members_quiet (block_quiet l) hpost hlater, htrace, ?_, hcalls⟩
      rw [← hwhole]
      exact List.forall_mem_append.mpr ⟨hbefore, hafter⟩
    · rw [List.append_nil] at hcalls
      rw [hwhole] at hbefore
      exact Or.inl ⟨_, t, _, hexec, htrace, hwhole ▸ hbefore, hcalls⟩

/-! ## Whole loops -/

/-- What the executions of a glyph came to, in their order. -/
def asked [DecidableEq α] (w : α) (r : Run α) : List (Except Fault Answer) :=
  (r.trace.filter (·.glyph = w)).map (·.outcome)

/-- Whether a call is for the very block that was called for first. -/
def stays (p : List Descent) : Bool := p.all (· == .again)

theorem GoesInside.not_stays {p : List Descent} (h : GoesInside whole p) : stays p = false := by
  cases p with
  | nil => simp [GoesInside] at h
  | cons d p =>
    obtain rfl : d = .inside := by simpa [GoesInside] using h.1
    rfl

theorem filter_stays_eq_nil {cs : List (List Descent)} (h : ∀ p ∈ cs, GoesInside whole p) :
    cs.filter stays = [] := by
  rw [List.filter_eq_nil_iff]
  intro p hp
  simp [(h p hp).not_stays]

theorem filter_stays_cons (cs : List (List Descent)) :
    ([] :: cs).filter stays = [] :: cs.filter stays := rfl

theorem filter_stays_again (cs : List (List Descent)) :
    (cs.map (.again :: ·)).filter stays = (cs.filter stays).map (.again :: ·) := by
  rw [List.filter_map]
  rfl

theorem Asking.not_mem (hw : Asking steps w) (hpre : Quiet steps pre) : w ∉ flatten pre := by
  intro hmem
  obtain ⟨xs, q, ys, hsteps, hrole, -, -⟩ := hw
  exact hpre w hmem q (by simp [hsteps]) hrole

theorem filter_glyph_eq_nil [DecidableEq α] {es : List (Entry α)} (h : w ∉ es.map (·.glyph)) :
    es.filter (·.glyph = w) = [] := by
  rw [List.filter_eq_nil_iff]
  intro e he heq
  exact h (List.mem_map.mpr ⟨e, he, by simpa using heq⟩)

/-- The run of a loop that is answered with yes `n` times: what it executes, which of its calls are
for the block itself, and how deep all of them go. -/
structure Loops (pre : List (Item α)) (w : α) (post : List (Item α)) (n : Nat) (r : Run α)
    (cs : List (List Descent)) : Prop where
  executed : r.executed = (List.replicate (n + 1) (flatten pre ++ [w])).flatten ++
    (List.replicate n (flatten post)).flatten
  calls : cs.filter stays = (List.range (n + 1)).map (List.replicate · .again)
  depth : ∀ p ∈ cs, p.length < n + nesting (pre ++ .glyph w :: post)

variable {r again : Run α} {cs cs' : List (List Descent)} {n : Nat}

theorem Leaves.asked [DecidableEq α] (h : Leaves pre w post r cs) (hw : w ∉ flatten pre) :
    asked w r = [.ok .rollback] := by
  obtain ⟨es, t, cs₁, hes, htrace, -, -⟩ := h
  rw [← hes] at hw
  simp [Run.asked, htrace, filter_glyph_eq_nil hw]

theorem Repeats.asked [DecidableEq α] (h : Repeats pre w post r cs again cs')
    (hpre : w ∉ flatten pre) (hpost : w ∉ flatten post) :
    asked w r = .ok .again :: asked w again := by
  obtain ⟨es, es', t, cs₁, cs₂, hes, hes', htrace, -, -⟩ := h
  rw [← hes] at hpre
  rw [← hes'] at hpost
  simp [Run.asked, htrace, filter_glyph_eq_nil hpre, filter_glyph_eq_nil hpost]

theorem Leaves.loops (h : Leaves pre w post r cs) : Loops pre w post 0 r cs := by
  obtain ⟨es, t, cs₁, hes, htrace, hcs, rfl⟩ := h
  refine ⟨?_, ?_, ?_⟩
  · simp [executed, htrace, hes]
  · rw [filter_stays_cons, filter_stays_eq_nil hcs]
    rfl
  · rw [List.forall_mem_cons]
    have := nesting_pos (pre ++ .glyph w :: post)
    exact ⟨by rw [List.length_nil]; omega, fun p hp => by have := (hcs p hp).2; omega⟩

theorem Repeats.loops (h : Repeats pre w post r cs again cs') (ha : Loops pre w post n again cs') :
    Loops pre w post (n + 1) r cs := by
  obtain ⟨es, es', t, cs₁, cs₂, hes, hes', htrace, hcs, rfl⟩ := h
  rw [List.forall_mem_append] at hcs
  refine ⟨?_, ?_, ?_⟩
  · have hexec : r.executed = flatten pre ++ w :: (again.executed ++ flatten post) := by
      simp [executed, htrace, hes, hes']
    have hlast : (List.replicate (n + 1) (flatten post)).flatten =
        (List.replicate n (flatten post)).flatten ++ flatten post := by
      rw [List.replicate_succ', List.flatten_append, List.flatten_singleton]
    rw [hexec, ha.executed, hlast, List.replicate_succ (n := n + 1)]
    simp
  · rw [filter_stays_cons, List.filter_append, List.filter_append, filter_stays_eq_nil hcs.1,
      filter_stays_eq_nil hcs.2, filter_stays_again, ha.calls, List.nil_append, List.append_nil,
      List.range_succ_eq_map (n := n + 1), List.map_cons, List.map_map, List.map_map]
    rfl
  · have := nesting_pos (pre ++ .glyph w :: post)
    rw [List.forall_mem_cons, List.forall_mem_append, List.forall_mem_append, List.forall_mem_map]
    refine ⟨by rw [List.length_nil]; omega, fun p hp => ?_, fun p hp => ?_, fun p hp => ?_⟩
    · have := (hcs.1 p hp).2
      omega
    · have := ha.depth p hp
      rw [List.length_cons]
      omega
    · have := (hcs.2 p hp).2
      omega

theorem loops_of_asked [DecidableEq α] (hwhole : whole = pre ++ .glyph w :: post)
    (hpre : Quiet steps pre) (hpost : Quiet steps post) (hw : Asking steps w)
    (hf : (block steps limit whole s).fault = none)
    (hasked : List.replicate n (.ok .again) ++ [.ok .rollback] <+:
      asked w (block steps limit whole s)) :
    Loops pre w post n (block steps limit whole s) (calls steps limit whole s) := by
  have hnot := hw.not_mem hpre
  induction n generalizing limit s with
  | zero =>
    obtain hleaves | ⟨l, t, -, hrepeats⟩ := loop_turn hwhole hpre hpost hw hf
    · exact hleaves.loops
    · rw [hrepeats.asked hnot (hw.not_mem hpost)] at hasked
      simp at hasked
  | succ n ih =>
    obtain hleaves | ⟨l, t, hagain, hrepeats⟩ := loop_turn hwhole hpre hpost hw hf
    · rw [hleaves.asked hnot] at hasked
      simp [List.replicate_succ] at hasked
    · rw [hrepeats.asked hnot (hw.not_mem hpost), List.replicate_succ, List.cons_append,
        List.cons_prefix_cons] at hasked
      exact hrepeats.loops (ih hagain hasked.2)

/-- **What a loop executes.** A block of members without questions around a glyph with one question,
which loops, runs without a fault, and the question is answered with yes the first `n` times and
then with no. Then the members up to the glyph are executed `n + 1` times over and after that the
members behind it `n` times over; the calls for the block itself are `n + 1`, each inside the one
before; and every limit of at least `n` more than the block is nested gives this run. -/
theorem loop_run [DecidableEq α] (hpre : Quiet steps pre) (hpost : Quiet steps post)
    (hw : Asking steps w) (n limit : Nat) (s : Store)
    (hf : (block steps limit (pre ++ .glyph w :: post) s).fault = none)
    (hasked : List.replicate n (.ok .again) ++ [.ok .rollback] <+:
      asked w (block steps limit (pre ++ .glyph w :: post) s)) :
    (block steps limit (pre ++ .glyph w :: post) s).executed =
        (List.replicate (n + 1) (flatten pre ++ [w])).flatten ++
          (List.replicate n (flatten post)).flatten ∧
      (calls steps limit (pre ++ .glyph w :: post) s).filter stays =
        (List.range (n + 1)).map (List.replicate · .again) ∧
      ∀ limit', n + nesting (pre ++ .glyph w :: post) ≤ limit' →
        block steps limit' (pre ++ .glyph w :: post) s =
          block steps limit (pre ++ .glyph w :: post) s := by
  obtain ⟨hexec, hcalls, hdepth⟩ := loops_of_asked rfl hpre hpost hw hf hasked
  refine ⟨hexec, hcalls, fun limit' hle => ?_⟩
  have hbelow := length_lt_of_fault (by rw [hf]; simp :
    (block steps limit (pre ++ .glyph w :: post) s).fault ≠ some .tooDeep)
  refine block_eq_of_calls (l := min limit (n + nesting (pre ++ .glyph w :: post)))
    (fun p hp => ?_) (by omega) (by omega)
  have := hbelow p hp
  have := hdepth p hp
  omega

/-- A glyph that takes one away from the first cell of list `1`, one that asks whether to go on as
long as the cell is positive, and one that adds five. -/
def countdown : Nat → List Step
  | 0 => [addFirst (-1)]
  | 1 => [{ askFirst with repetition := some .loop }]
  | _ => [addFirst 5]

/-- From two the question is answered with yes once: the block inside and the question run twice,
the last glyph once. -/
theorem loop_run_countdown :
    (block countdown 3 ([.block [.glyph 0]] ++ .glyph 1 :: [.glyph 2])
        ⟨[(1, [.int 2])]⟩).executed = [0, 1, 0, 1, 2] ∧
      (calls countdown 3 ([.block [.glyph 0]] ++ .glyph 1 :: [.glyph 2])
        ⟨[(1, [.int 2])]⟩).filter stays = [[], [.again]] := by
  have hpre : Quiet countdown [.block [.glyph 0]] := by simp [Quiet, countdown, addFirst]
  have hpost : Quiet countdown [.glyph 2] := by simp [Quiet, countdown, addFirst]
  have hw : Asking countdown 1 := ⟨[], _, [], rfl, rfl, rfl, by simp⟩
  have h := loop_run hpre hpost hw 1 3 ⟨[(1, [.int 2])]⟩ (by decide +kernel) (by decide +kernel)
  exact ⟨by rw [h.1]; simp, h.2.1⟩

end Run

end StrandScript
