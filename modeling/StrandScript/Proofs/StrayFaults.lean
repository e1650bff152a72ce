import StrandScript.Proofs.Cutting
import StrandScript.Proofs.Numbering
import StrandScript.Proofs.TableReach

/-!
# Faults that no check catches

A drawing that cannot be read should be reported: by a complaint, or by naming the sign at fault.
Four ways of going wrong come to another fault. A strand may lead off its glyph, or along a column
that the table does not have (`Grid.Derails`). An action from list to list may have a number that
stands for no command (`Hook.Strays`). And a place may refer to a row on which only a question
marker stands (`Arrangement.Strays`). There are no others (`stray_fault_iff`): the table has all
rows, hooks can always be told, and the first failure settles the fault.

* `Fault.isStray`: the faults that report nothing.
* `Grid.walk_eq_stray`: a strand is lost where it cannot be followed, step by step from its hook.
* `Arrangement.question?_cases`: all that reading a question can come to.
* `Program.assemble_eq_stray`: strands first, all of them, and then rows.
-/

namespace StrandScript

/-- A fault that tells nothing about the drawing: no complaint, none of the faults of the drawing's
signs, and not the limit. -/
def Fault.isStray : Fault → Bool
  | .complaint _ | .blankCell _ | .unknownSign _ | .tooDeep => false
  | _ => true

/-! ## Strands that cannot be followed -/

theorem Primes.number_eq_error {primes : List Nat} {i : Nat} {f : Fault} :
    Primes.number primes i = .error f ↔ f = .outOfRange ∧ primes.length ≤ i := by
  unfold Primes.number
  cases h : primes[i]? with
  | none =>
    rw [List.getElem?_eq_none_iff] at h
    simp [h, eq_comm]
  | some n =>
    obtain ⟨hlt, -⟩ := List.getElem?_eq_some_iff.mp h
    simp [hlt]

theorem Strand.addRun_eq_error {primes : List Nat} {hookX : Int} {sums : Sums} {p : Pos} {d : Dir}
    {f : Fault} : Strand.addRun primes hookX sums p d = .error f ↔
      f = .outOfRange ∧ primes.length ≤ Strand.runIndex hookX p d := by
  cases d <;>
    simp [Strand.addRun, Strand.runIndex, Dir.isHorizontal, Outcome.bind_eq_error,
      Primes.number_eq_error, pure, Except.pure]

namespace Grid

variable {g : Grid} {w : Nat} {p : Pos} {c : Char} {d : Dir} {primes : List Nat} {hookX : Int}
  {sums : Sums} {f : Fault} {limit : Nat}

/-- A sign is counted as far as the table goes. -/
theorem sumsAfter_eq_error {s : Sign} (hrow : p.y.toNat < primes.length) :
    sumsAfter primes hookX sums s p (s.through d) = .error f ↔
      f = .outOfRange ∧ s = .vertical ∧ d.isHorizontal = false ∧
        primes.length ≤ Strand.columnIndex hookX p.x := by
  cases s with
  | vertical | horizontal =>
    cases d <;>
      simp [sumsAfter, Sign.isStraight, Sign.through, Sign.hasPlace, Sign.readings, Dir.opposite,
        Dir.isHorizontal, Strand.addRun_eq_error, Strand.runIndex, hrow]
  | opening | closing | downLeft | downRight | upRight | upLeft | stubLeft | stubRight =>
    simp [sumsAfter, Sign.isStraight, Sign.hasPlace, Sign.readings]

/-- A strand goes over `n` signs from `p` in direction `d` without an end, and then stands at `q`
with direction `e`. All columns on the way are in the table. -/
inductive Passes (g : Grid) (primes : List Nat) (hookX : Int) :
    Pos → Dir → Nat → Pos → Dir → Prop
  | here {p : Pos} {d : Dir} : Passes g primes hookX p d 0 p d
  | on {p q : Pos} {d e d' : Dir} {s : Sign} {n : Nat} (hs : g.sign? (p.step d) = some s)
      (he : s.through d = some e)
      (hcolumn : s = .vertical → Strand.columnIndex hookX (p.step d).x < primes.length)
      (hgo : s.mayEnd = true → g.proceeds s (p.step d) (some e) = true)
      (hrest : Passes g primes hookX (p.step d) e n q d') : Passes g primes hookX p d (n + 1) q d'

/-- A strand at `p` with direction `d` cannot be followed: it leads off the glyph, or down or up a
column that the table does not have. -/
inductive Derails (g : Grid) (primes : List Nat) (hookX : Int) (p : Pos) (d : Dir) : Fault → Prop
  | off (hc : g.char? (p.step d) = none) : Derails g primes hookX p d .wrongKind
  | beyond (hs : g.sign? (p.step d) = some .vertical) (hd : d.isHorizontal = false)
      (hcolumn : primes.length ≤ Strand.columnIndex hookX (p.step d).x) :
      Derails g primes hookX p d .outOfRange

theorem derails_of_char?_none (hc : g.char? (p.step d) = none) :
    g.Derails primes hookX p d f ↔ f = .wrongKind := by
  have hsign : g.sign? (p.step d) = none := by rw [sign?, hc, Option.bind_none]
  constructor
  · rintro (_ | ⟨hs, -, -⟩)
    · rfl
    · rw [hsign] at hs
      cases hs
  · rintro rfl
    exact .off hc

theorem derails_of_char? {c : Char} (hc : g.char? (p.step d) = some c) :
    g.Derails primes hookX p d f ↔ f = .outOfRange ∧ g.sign? (p.step d) = some .vertical ∧
      d.isHorizontal = false ∧ primes.length ≤ Strand.columnIndex hookX (p.step d).x := by
  constructor
  · rintro (hnone | ⟨hs, hd, hcolumn⟩)
    · rw [hc] at hnone
      cases hnone
    · exact ⟨rfl, hs, hd, hcolumn⟩
  · rintro ⟨rfl, hs, hd, hcolumn⟩
    exact .beyond hs hd hcolumn

/-- Beyond a sign that was counted, a strand ends, stops with a complaint, or goes on. -/
theorem rest_eq_stray (hf : f.isStray = true) {s : Sign} {q : Pos} {stop : List Cell × Sums × Stop}
    {rest : Dir → Except Fault (List Cell × Sums × Stop)} :
    (if s.mayEnd && !g.proceeds s q (s.through d) then .ok stop
      else (s.through d).elim (.error (.complaint (.noReading q))) rest) = .error f ↔
      ∃ e, s.through d = some e ∧ (s.mayEnd = true → g.proceeds s q (some e) = true) ∧
        rest e = .error f := by
  cases he : s.through d with
  | none =>
    constructor
    · intro h
      split at h
      · cases h
      · cases h
        cases hf
    · rintro ⟨e, he, -⟩
      cases he
  | some e =>
    cases s.mayEnd <;> cases hgo : g.proceeds s q (some e) <;> simp [hgo]

/-- One step of a strand: it is lost here, or after the next sign. -/
theorem walk_step_eq_stray (hg : g.Rectangular w) (hlen : g.length ≤ primes.length)
    (hp : g.char? p = some c) (hf : f.isStray = true) :
    Strand.walk g primes hookX (limit + 1) p d sums = .error f ↔
      g.Derails primes hookX p d f ∨ ∃ s e sums', g.sign? (p.step d) = some s ∧
        s.through d = some e ∧ sumsAfter primes hookX sums s (p.step d) (some e) = .ok sums' ∧
        (s.mayEnd = true → g.proceeds s (p.step d) (some e) = true) ∧
        Strand.walk g primes hookX limit (p.step d) e sums' = .error f := by
  cases hc : g.char? (p.step d) with
  | none =>
    rw [derails_of_char?_none hc, walk_succ, neighbor_eq hg hp, hc, sign?, hc]
    simpa [bind, Except.bind] using eq_comm
  | some c' =>
    rw [derails_of_char? hc]
    cases hs : Sign.ofChar? c' with
    | none =>
      rw [walk_succ, neighbor_eq hg hp, hc, sign?, hc]
      simp only [Option.map_some, bind, Except.bind, Option.elim_some, hs, Option.elim_none]
      constructor
      · intro h
        obtain rfl := Except.error.inj h
        split at hf <;> cases hf
      · simp [hs]
    | some s =>
      rw [walk_sign hg hp hc hs, Outcome.bind_eq_error, sumsAfter_eq_error (row_lt hlen hc), sign?,
        hc, Option.bind_some, hs]
      refine or_congr (by simp) ?_
      constructor
      · rintro ⟨sums', hsums, h⟩
        obtain ⟨e, he, hgo, hrest⟩ := (rest_eq_stray hf).mp h
        rw [he] at hsums
        obtain hwalk | ⟨_, _, h⟩ := Outcome.bind_eq_error.mp hrest
        · exact ⟨s, e, sums', rfl, he, hsums, hgo, hwalk⟩
        · cases h
      · rintro ⟨_, e, sums', ⟨rfl⟩, he, hsums, hgo, hwalk⟩
        refine ⟨sums', he ▸ hsums, (rest_eq_stray hf).mpr ⟨e, he, hgo, ?_⟩⟩
        exact Outcome.bind_eq_error.mpr (.inl hwalk)

theorem exists_sumsAfter (sums : Sums) {s : Sign} {e : Dir} (hrow : p.y.toNat < primes.length)
    (he : s.through d = some e) :
    (∃ sums', sumsAfter primes hookX sums s p (some e) = .ok sums') ↔
      (s = .vertical → Strand.columnIndex hookX p.x < primes.length) := by
  have herror : ∀ f, sumsAfter primes hookX sums s p (some e) = .error f ↔ f = .outOfRange ∧
      s = .vertical ∧ d.isHorizontal = false ∧ primes.length ≤ Strand.columnIndex hookX p.x :=
    fun f => he ▸ sumsAfter_eq_error hrow
  cases h : sumsAfter primes hookX sums s p (some e) with
  | error f =>
    obtain ⟨-, rfl, -, hcolumn⟩ := (herror f).mp h
    simp [hcolumn]
  | ok sums' =>
    simp only [Except.ok.injEq, exists_eq', true_iff]
    rintro rfl
    by_contra hcolumn
    have hd : d.isHorizontal = false := by
      cases d with
      | up | down => rfl
      | left | right => cases he
    rw [(herror _).mpr ⟨rfl, rfl, hd, Nat.le_of_not_lt hcolumn⟩] at h
    cases h

/-- **A strand is lost exactly if it comes to a place where it cannot be followed.** -/
theorem walk_eq_stray (hg : g.Rectangular w) (hlen : g.length ≤ primes.length)
    (hp : g.char? p = some c) (hf : f.isStray = true) :
    Strand.walk g primes hookX limit p d sums = .error f ↔
      ∃ n q e, n < limit ∧ g.Passes primes hookX p d n q e ∧ g.Derails primes hookX q e f := by
  induction limit generalizing p c d sums with
  | zero =>
    constructor
    · intro h
      cases h
      cases hf
    · rintro ⟨n, q, e, hn, -⟩
      exact absurd hn (Nat.not_lt_zero n)
  | succ limit ih =>
    rw [walk_step_eq_stray hg hlen hp hf]
    constructor
    · rintro (hder | ⟨s, e, sums', hs, he, hsums, hgo, hrest⟩)
      · exact ⟨0, p, d, Nat.succ_pos _, .here, hder⟩
      · obtain ⟨c', hc, -⟩ := Option.bind_eq_some_iff.mp hs
        obtain ⟨n, q, e', hn, hpass, hder⟩ := (ih hc).mp hrest
        have hcolumn := (exists_sumsAfter sums (row_lt hlen hc) he).mp ⟨sums', hsums⟩
        exact ⟨n + 1, q, e', Nat.succ_lt_succ hn, .on hs he hcolumn hgo hpass, hder⟩
    · rintro ⟨n, q, e, hn, hpass, hder⟩
      cases hpass with
      | here => exact .inl hder
      | on hs he hcolumn hgo hrest =>
        obtain ⟨c', hc, -⟩ := Option.bind_eq_some_iff.mp hs
        obtain ⟨sums', hsums⟩ := (exists_sumsAfter sums (row_lt hlen hc) he).mpr hcolumn
        refine .inr ⟨_, _, sums', hs, he, hsums, hgo, (ih hc).mpr ?_⟩
        exact ⟨_, q, e, Nat.lt_of_succ_lt_succ hn, hrest, hder⟩

/-! ## Hooks -/

/-- Whether a place is a hook can always be told. -/
theorem exists_hookAt (hg : g.Rectangular w) (hp : g.char? p = some c) :
    ∃ h, g.hookAt p c = .ok h := by
  unfold hookAt
  cases hs : Sign.ofChar? c with
  | none => exact ⟨none, rfl⟩
  | some s =>
    simp only
    split
    · rename_i hstart
      obtain ⟨r, hr, -⟩ := linkReadings_start hstart
      unfold links
      simp only [hr, linkedDirs_eq (linked_eq hg hp hs), bind, Except.bind, pure, Except.pure]
      split <;> exact ⟨_, rfl⟩
    · exact ⟨none, rfl⟩

theorem exists_hooksAt (hg : g.Rectangular w) {cs : List (Pos × Char)}
    (hcs : ∀ a ∈ cs, g.char? a.1 = some a.2) : ∃ hs, g.hooksAt cs = .ok hs := by
  induction cs with
  | nil => exact ⟨[], rfl⟩
  | cons a cs ih =>
    rw [List.forall_mem_cons] at hcs
    obtain ⟨here, hhere⟩ := exists_hookAt hg hcs.1
    obtain ⟨later, hlater⟩ := ih hcs.2
    exact ⟨here.toList ++ later, by rw [hooksAt, hhere, hlater]; rfl⟩

theorem exists_hooks (hg : g.Rectangular w) : ∃ hs, g.hooks = .ok hs :=
  exists_hooksAt hg fun _ ha => mem_cells.mp ha

end Grid

/-- Only the end of a strand from list to list has no complaint about its number. -/
theorem Meaning.ofStop_eq_stray {kind : Kind} {sums : Sums} {stop : Stop} {f : Fault}
    (hf : f.isStray = true) : Meaning.ofStop kind sums stop = .error f ↔
      kind = .action ∧ stop.sign.marksAgainst stop.entry = true ∧
        sums.down.bind Command.ofNumber? = none ∧ f = .missingCommand sums.down := by
  cases kind with
  | question | marker => simp [Meaning.ofStop]
  | data =>
    simp only [Meaning.ofStop]
    split <;> simp
  | action =>
    have hcomplaint : ∀ c, .complaint c ≠ f := by
      rintro c rfl
      cases hf
    simp only [Meaning.ofStop, true_and]
    generalize sums.down = n
    cases hc : n.bind Command.ofNumber? with
    | none =>
      cases n <;> cases stop.sign.marksAgainst stop.entry <;> simp [hcomplaint, @eq_comm _ f]
    | some c =>
      obtain ⟨n, rfl, -⟩ := Option.bind_eq_some_iff.mp hc
      simp only [reduceCtorEq, false_and, and_false, iff_false]
      split
      · simp
      · split <;> simp

/-- The strand of a hook is lost: it comes to a place where it cannot be followed, or it is an
action from list to list with a number that stands for no command. -/
inductive Hook.Strays (limit : Nat) (primes : List Nat) (g : Grid) (h : Hook) : Fault → Prop
  | lost {n : Nat} {q : Pos} {e : Dir} {f : Fault} (hn : n < limit)
      (hpass : g.Passes primes h.pos.x h.pos h.dir n q e)
      (hder : g.Derails primes h.pos.x q e f) : Strays limit primes g h f
  | unknown {cells : List Cell} {sums : Sums} {stop : Stop}
      (hwalk : g.Walks primes h.pos.x h.pos h.dir .none cells sums stop)
      (hn : cells.length ≤ limit) (hkind : h.kind = .action)
      (hmark : stop.sign.marksAgainst stop.entry = true)
      (hdown : sums.down.bind Command.ofNumber? = none) :
      Strays limit primes g h (.missingCommand sums.down)

theorem Grid.Derails.isStray {g : Grid} {primes : List Nat} {hookX : Int} {p : Pos} {d : Dir}
    {f : Fault} (h : g.Derails primes hookX p d f) : f.isStray = true := by
  cases h with
  | off | beyond => rfl

theorem Strand.ofHook_eq_stray {limit : Nat} {primes : List Nat} {g : Grid} {w : Nat} {h : Hook}
    {c : Char} {f : Fault} (hg : g.Rectangular w) (hlen : g.length ≤ primes.length)
    (hp : g.char? h.pos = some c) :
    Strand.ofHook limit primes g h = .error f ∧ f.isStray = true ↔ h.Strays limit primes g f := by
  constructor
  · rintro ⟨hk, hf⟩
    obtain hwalk | ⟨⟨cells, sums, stop⟩, hwalk, hk⟩ := Outcome.bind_eq_error.mp hk
    · obtain ⟨n, q, e, hn, hpass, hder⟩ := (Grid.walk_eq_stray hg hlen hp hf).mp hwalk
      exact .lost hn hpass hder
    · obtain hm | ⟨m, -, hk⟩ := Outcome.bind_eq_error.mp hk
      · obtain ⟨hkind, hmark, hdown, rfl⟩ := (Meaning.ofStop_eq_stray hf).mp hm
        exact .unknown (Grid.walks_of_walk hg hp hwalk)
          (Grid.length_of_walk hwalk) hkind hmark hdown
      · cases hk
  · rintro (⟨hn, hpass, hder⟩ | ⟨hwalk, hn, hkind, hmark, hdown⟩)
    · refine ⟨Outcome.bind_eq_error.mpr (.inl ?_), hder.isStray⟩
      exact (Grid.walk_eq_stray hg hlen hp hder.isStray).mpr ⟨_, _, _, hn, hpass, hder⟩
    · refine ⟨Outcome.bind_eq_error.mpr (.inr ⟨_, hwalk.walk_eq hg hp hn, ?_⟩), rfl⟩
      refine Outcome.bind_eq_error.mpr (.inl ?_)
      exact (Meaning.ofStop_eq_stray rfl).mpr ⟨hkind, hmark, hdown, rfl⟩

/-- A glyph has a strand that is lost, and all strands before it are read. -/
def Grid.Strays (limit : Nat) (primes : List Nat) (g : Grid) (f : Fault) : Prop :=
  ∃ before h after, g.pad.hooks = .ok (before ++ h :: after) ∧
    (∀ k ∈ before, ∃ s, Strand.ofHook limit primes g.pad k = .ok s) ∧ h.Strays limit primes g.pad f

/-- **The strands of a glyph stray with the first that does.** -/
theorem Grid.strands_eq_stray {limit : Nat} {primes : List Nat} {g : Grid} {f : Fault}
    (hlen : g.length ≤ primes.length) :
    g.strands limit primes = .error f ∧ f.isStray = true ↔ g.Strays limit primes f := by
  obtain ⟨hooks, hhooks⟩ := exists_hooks (rectangular_pad g)
  have hstrays : ∀ k ∈ hooks, Strand.ofHook limit primes g.pad k = .error f ∧ f.isStray = true ↔
      k.Strays limit primes g.pad f := fun k hk => by
    have hhook := isHook_of_hooksAt (rectangular_pad g) (fun _ ha => mem_cells.mp ha) hhooks k hk
    obtain ⟨c, hc, -⟩ := Option.bind_eq_some_iff.mp hhook.sign
    exact Strand.ofHook_eq_stray (rectangular_pad g) (by rwa [length_pad]) hc
  have hstrands : g.strands limit primes = hooks.mapM (Strand.ofHook limit primes g.pad) := by
    rw [strands, hhooks]
    rfl
  rw [hstrands, Outcome.mapM_eq_error]
  constructor
  · rintro ⟨⟨before, h, after, rfl, hbefore, herror⟩, hf⟩
    exact ⟨before, h, after, hhooks, hbefore, (hstrays h (by simp)).mp ⟨herror, hf⟩⟩
  · rintro ⟨before, h, after, hhooks', hbefore, hstray⟩
    obtain rfl := Except.ok.inj (hhooks.symm.trans hhooks')
    obtain ⟨herror, hf⟩ := (hstrays h (by simp)).mpr hstray
    exact ⟨⟨before, h, after, rfl, hbefore, herror⟩, hf⟩

/-! ## Rows with nothing to refer to -/

namespace Arrangement

variable {primes : List Nat} {ss : List Strand} {ds : List DataToken} {f : Fault}

theorem exists_placeData (hrow : ∀ s ∈ ss, s.pos.y.toNat < primes.length) (seen : List Int) :
    ∃ ds, placeData primes seen ss = .ok ds := by
  induction ss generalizing seen with
  | nil => exact ⟨[], rfl⟩
  | cons s ss ih =>
    rw [List.forall_mem_cons] at hrow
    obtain ⟨ds, hds⟩ := ih hrow.2 (s.pos.y :: seen)
    rw [placeData, Primes.number, List.getElem?_eq_getElem hrow.1, hds]
    exact ⟨_, rfl⟩

/-- The place `q` lies left of `p` on its row, and no strand of `ss` begins there. -/
structure BareRow (ss : List Strand) (q p : Pos) : Prop where
  row : q.y = p.y
  left : q.x < p.x
  bare : ∀ s ∈ ss, s.pos.y = p.y → p.x ≤ s.pos.x

/-- The cell that a place refers to cannot be told if only a question marker stands left on the
row. -/
theorem cellBefore_eq_error {question : Option Pos} {p : Pos} :
    cellBefore ds question p = .error f ↔
      f = .badValue ∧ ∃ q ∈ question, BareRow (ds.map (·.strand)) q p := by
  unfold cellBefore
  simp only
  cases hmax : ((ds.filter fun d => d.strand.pos.y == p.y && d.strand.pos.x < p.x).map
      (·.cell)).max? with
  | some m =>
    obtain ⟨d, hd, -⟩ := List.mem_map.mp (List.max?_mem hmax)
    simp only [List.mem_filter, Bool.and_eq_true, beq_iff_eq, decide_eq_true_eq] at hd
    simp only [reduceCtorEq, false_iff, not_and, not_exists]
    rintro - q - hbare
    have := hbare.bare d.strand (List.mem_map_of_mem hd.1) hd.2.1
    omega
  | none =>
    rw [List.max?_eq_none_iff, List.map_eq_nil_iff, List.filter_eq_nil_iff] at hmax
    have hbare : ∀ s ∈ ds.map (·.strand), s.pos.y = p.y → p.x ≤ s.pos.x := by
      refine List.forall_mem_map.mpr fun d hd hy => ?_
      have := hmax d hd
      simp only [Bool.and_eq_true, beq_iff_eq, decide_eq_true_eq, not_and] at this
      exact Int.not_lt.mp (this hy)
    cases question with
    | none => simp
    | some q =>
      simp only [Option.any_some, Bool.and_eq_true, beq_iff_eq, decide_eq_true_eq, Option.mem_def,
        Option.some.injEq, exists_eq_left']
      split
      · rename_i hq
        have hrow : BareRow (ds.map (·.strand)) q p := ⟨hq.1, hq.2, hbare⟩
        simp [hrow, eq_comm]
      · rename_i hq
        simp only [reduceCtorEq, false_iff, not_and]
        exact fun _ hrow => hq ⟨hrow.row, hrow.left⟩

theorem refAt_eq_error {question : Option Pos} {p : Pos} (hp : p.y.toNat < primes.length) :
    refAt primes ds question p = .error f ↔
      f = .badValue ∧ ∃ q ∈ question, BareRow (ds.map (·.strand)) q p := by
  rw [← cellBefore_eq_error, refAt, Outcome.bind_eq_error, Primes.number_eq_error]
  simp [Outcome.bind_eq_error, Primes.number, hp, pure, Except.pure]

/-- Without a question marker every place refers to a cell. -/
theorem exists_refAt_none (ds : List DataToken) {p : Pos} (hp : p.y.toNat < primes.length) :
    ∃ ref, refAt primes ds none p = .ok ref := by
  cases hr : refAt primes ds none p with
  | ok ref => exact ⟨ref, rfl⟩
  | error f =>
    obtain ⟨-, q, hq, -⟩ := (refAt_eq_error hp).mp hr
    cases hq

theorem refAt_some_cases (ds : List DataToken) (q : Pos) {p : Pos}
    (hp : p.y.toNat < primes.length) :
    (BareRow (ds.map (·.strand)) q p ∧ refAt primes ds (some q) p = .error .badValue) ∨
      (¬ BareRow (ds.map (·.strand)) q p ∧ ∃ ref, refAt primes ds (some q) p = .ok ref) := by
  by_cases hbare : BareRow (ds.map (·.strand)) q p
  · exact .inl ⟨hbare, (refAt_eq_error hp).mpr ⟨rfl, q, rfl, hbare⟩⟩
  · cases hr : refAt primes ds (some q) p with
    | ok ref => exact .inr ⟨hbare, ref, rfl⟩
    | error f =>
      obtain ⟨-, q', ⟨rfl⟩, hbare'⟩ := (refAt_eq_error hp).mp hr
      exact absurd hbare' hbare

/-- The question of a glyph by its markers: none, a first one alone, a second one in the wrong
place, one on a row with nothing to refer to, a third one, or a pair. -/
theorem question?_cases (ds : List DataToken) (i : Nat) {qs : List Strand}
    (hrow : ∀ q ∈ qs, q.pos.y.toNat < primes.length) :
    (qs = [] ∧ question? i primes ds qs = .ok none) ∨
    (∃ q, qs = [q] ∧ question? i primes ds qs = .ok (some (.inl q))) ∨
    ∃ q r more, qs = q :: r :: more ∧
      ((stopOf q ≠ r.pos ∧ question? i primes ds qs = .error (.complaint (.secondMisplaced i))) ∨
      (stopOf q = r.pos ∧ BareRow (ds.map (·.strand)) q.pos r.pos ∧
        question? i primes ds qs = .error .badValue) ∨
      (stopOf q = r.pos ∧ ¬ BareRow (ds.map (·.strand)) q.pos r.pos ∧
        ((more ≠ [] ∧ question? i primes ds qs = .error (.complaint (.tooManyQuestions i))) ∨
        more = [] ∧ ∃ t : QuestionToken, t.strand = q ∧
          question? i primes ds qs = .ok (some (.inr t))))) := by
  match qs with
  | [] => exact .inl ⟨rfl, rfl⟩
  | [q] =>
    obtain ⟨ref, href⟩ := exists_refAt_none ds (hrow q (by simp))
    refine .inr (.inl ⟨q, rfl, ?_⟩)
    rw [question?, href]
    rfl
  | q :: r :: more =>
    obtain ⟨ref, href⟩ := exists_refAt_none ds (hrow q (by simp))
    refine .inr (.inr ⟨q, r, more, rfl, ?_⟩)
    simp only [question?, href, bind, Except.bind]
    by_cases hstop : stopOf q = r.pos
    · rw [if_neg (not_not_intro hstop)]
      rcases refAt_some_cases ds q.pos (hrow r (by simp)) with
        ⟨hbare, hsecond⟩ | ⟨hbare, second, hsecond⟩
      · exact .inr (.inl ⟨hstop, hbare, by rw [hsecond]⟩)
      · refine .inr (.inr ⟨hstop, hbare, ?_⟩)
        rw [hsecond]
        cases more with
        | nil => exact .inr ⟨rfl, _, rfl, rfl⟩
        | cons _ _ => exact .inl ⟨List.cons_ne_nil _ _, rfl⟩
    · exact .inl ⟨hstop, by rw [if_pos hstop]; rfl⟩

theorem withRefs_eq_error {question : Option Pos}
    (hrow : ∀ d ∈ ds, ∀ p, d.strand.meaning = .ref p → p.y.toNat < primes.length) :
    withRefs primes ds question = .error f ↔ f = .badValue ∧ ∃ d ∈ ds, ∃ p,
      d.strand.meaning = .ref p ∧ ∃ q ∈ question, BareRow (ds.map (·.strand)) q p := by
  refine Outcome.mapM_eq_error_of_unique fun d hd e => ?_
  split
  · rename_i p hp
    rw [Outcome.bind_eq_error, refAt_eq_error (hrow d hd p hp)]
    simp [hp, pure, Except.pure]
  · rename_i hmeaning
    simp only [reduceCtorEq, false_iff, not_and, not_exists]
    rintro - p hp
    exact absurd hp (hmeaning p)

/-- Where the question of a glyph begins. -/
def markerPos : Option (Strand ⊕ QuestionToken) → Option Pos :=
  Option.map fun
    | .inl s => s.pos
    | .inr t => t.strand.pos

/-- The tokens of a glyph, once its question is read. -/
def finish (g : Nat) (primes : List Nat) (actions : List (Strand × Nat)) (ds : List DataToken)
    (q : Option (Strand ⊕ QuestionToken)) : Except Fault (List Token) := do
  let ds ← withRefs primes ds (markerPos q)
  let ds := attach actions [] ds
  match q with
  | none => return ds.map .data
  | some (.inl s) => throw (.complaint (.secondMissing s.pos g))
  | some (.inr t) => return ds.map .data ++ [.question t]

theorem tokens_eq (g : Nat) (primes : List Nat) (ss : List Strand) :
    tokens g primes ss = (do
      let ds ← placeData primes [] (byColumn .data ss)
      let q ← question? g primes ds (questions ss)
      finish g primes (ranks 0 0 (byColumn .action ss)) ds q) := rfl

/-- Once its question is read, the arrangement fails only on the row of a reference. -/
theorem finish_eq_stray {g : Nat} {actions : List (Strand × Nat)}
    {q : Option (Strand ⊕ QuestionToken)}
    (hrow : ∀ d ∈ ds, ∀ p, d.strand.meaning = .ref p → p.y.toNat < primes.length) :
    finish g primes actions ds q = .error f ∧ f.isStray = true ↔
      f = .badValue ∧ ∃ s ∈ ds.map (·.strand), ∃ p, s.meaning = .ref p ∧
        ∃ m ∈ markerPos q, BareRow (ds.map (·.strand)) m p := by
  simp only [List.mem_map, exists_exists_and_eq_and]
  rw [← withRefs_eq_error hrow]
  constructor
  · rintro ⟨h, hf⟩
    obtain hrefs | ⟨ds', -, h⟩ := Outcome.bind_eq_error.mp h
    · exact hrefs
    · match q with
      | none | some (.inr _) => cases h
      | some (.inl _) =>
        cases h
        cases hf
  · intro hrefs
    obtain ⟨rfl, -⟩ := (withRefs_eq_error hrow).mp hrefs
    exact ⟨Outcome.bind_eq_error.mpr (.inl hrefs), rfl⟩

/-- A glyph with a question has a row with no cell to refer to, where one is referred to: by its
second marker, or by a data strand. -/
def Strays (ss : List Strand) : Prop :=
  ∃ q rest, questions ss = q :: rest ∧
    ((∃ r more, rest = r :: more ∧ stopOf q = r.pos ∧ BareRow (byColumn .data ss) q.pos r.pos) ∨
    ((rest = [] ∨ ∃ r, rest = [r] ∧ stopOf q = r.pos) ∧ ∃ s ∈ byColumn .data ss, ∃ p,
      s.meaning = .ref p ∧ BareRow (byColumn .data ss) q.pos p))

/-- **The arrangement of a glyph strays exactly on a bare row.** -/
theorem tokens_eq_stray (i : Nat) (hpos : ∀ s ∈ ss, s.pos.y.toNat < primes.length)
    (href : ∀ s ∈ ss, ∀ p, s.meaning = .ref p → p.y.toNat < primes.length) :
    tokens i primes ss = .error f ∧ f.isStray = true ↔ f = .badValue ∧ Strays ss := by
  have hdata : ∀ s ∈ byColumn .data ss, s ∈ ss := fun s hs =>
    List.mem_of_mem_filter ((byColumn_perm .data ss).subset hs)
  have hquestions : ∀ s ∈ questions ss, s ∈ ss := fun s hs =>
    List.mem_of_mem_filter ((questions_perm ss).subset hs)
  have hcomplaint : ∀ c, ¬ (.complaint c = f ∧ f.isStray = true) := by
    rintro c ⟨rfl, hf⟩
    cases hf
  obtain ⟨ds, hds⟩ := exists_placeData (fun s hs => hpos s (hdata s hs)) []
  have hstrands := placeData_strand hds
  have hrefs : ∀ d ∈ ds, ∀ p, d.strand.meaning = .ref p → p.y.toNat < primes.length := fun d hd =>
    href d.strand (hdata _ (hstrands ▸ List.mem_map_of_mem hd))
  have hcases := question?_cases ds i fun q hq => hpos q (hquestions q hq)
  rw [hstrands] at hcases
  rw [tokens_eq, hds, Strays]
  simp only [bind, Except.bind]
  rcases hcases with ⟨hqs, hq⟩ | ⟨q, hqs, hq⟩ | ⟨q, r, more, hqs, ⟨hstop, hq⟩ | ⟨hstop, hbare, hq⟩ |
    ⟨hstop, hbare, ⟨hmore, hq⟩ | ⟨rfl, t, rfl, hq⟩⟩⟩
  · simp only [hq, finish_eq_stray hrefs]
    simp [hqs, markerPos]
  · simp only [hq, finish_eq_stray hrefs]
    simp [hqs, hstrands, markerPos]
  · simp only [hq, Except.error.injEq, hcomplaint]
    simp [hqs, hstop]
  · simp only [hq, Except.error.injEq]
    constructor
    · rintro ⟨rfl, -⟩
      exact ⟨rfl, q, r :: more, hqs, .inl ⟨r, more, rfl, hstop, hbare⟩⟩
    · rintro ⟨rfl, -⟩
      exact ⟨rfl, rfl⟩
  · simp only [hq, Except.error.injEq, hcomplaint]
    simp [hqs, hbare, hmore]
  · simp only [hq, finish_eq_stray hrefs]
    simp [hqs, hstrands, hstop, hbare, markerPos]

end Arrangement

/-! ## Programs -/

namespace Program

variable {limit : Nat} {ps : List Panel} {primes : List Nat} {sss : List (List Strand)} {f : Fault}

/-- The first glyph whose arrangement fails settles the fault. -/
theorem tokensFrom_eq_error {k : Nat} :
    tokensFrom primes k sss = .error f ↔ ∃ before ss after, sss = before ++ ss :: after ∧
      (∃ tss, tokensFrom primes k before = .ok tss) ∧
      Arrangement.tokens (k + before.length) primes ss = .error f := by
  induction sss generalizing k with
  | nil => simp [tokensFrom]
  | cons ss sss ih =>
    rw [tokensFrom, Outcome.bind_eq_error]
    constructor
    · rintro (hss | ⟨ts, hts, h⟩)
      · exact ⟨[], ss, sss, rfl, ⟨[], rfl⟩, hss⟩
      · obtain hrest | ⟨tss, -, h⟩ := Outcome.bind_eq_error.mp h
        · obtain ⟨before, ss', after, rfl, ⟨tss, htss⟩, herror⟩ := ih.mp hrest
          refine ⟨ss :: before, ss', after, rfl, ⟨ts :: tss, ?_⟩, ?_⟩
          · rw [tokensFrom, hts, htss]
            rfl
          · rwa [List.length_cons, Nat.add_comm before.length, ← Nat.add_assoc]
        · cases h
    · rintro ⟨before, ss', after, hsplit, ⟨tss, htss⟩, herror⟩
      cases before with
      | nil =>
        obtain ⟨rfl, -⟩ := List.cons.inj hsplit
        exact .inl herror
      | cons ss₀ before =>
        obtain ⟨rfl, rfl⟩ := List.cons.inj hsplit
        obtain ⟨ts, hts, htss⟩ := Outcome.bind_eq_ok.mp htss
        obtain ⟨tss', htss', -⟩ := Outcome.bind_eq_ok.mp htss
        rw [List.length_cons, Nat.add_comm before.length, ← Nat.add_assoc] at herror
        refine .inr ⟨ts, hts, Outcome.bind_eq_error.mpr (.inl (ih.mpr ?_))⟩
        exact ⟨before, ss', after, rfl, ⟨tss', htss'⟩, herror⟩

/-- Reading some glyphs strays: on a strand, with all glyphs before read, or on a bare row, with all
strands read and all glyphs before arranged. -/
inductive Strays (limit : Nat) (ps : List Panel) : Fault → Prop
  | strand {primes : List Nat} {before after : List Panel} {p : Panel} {f : Fault}
      (hprimes : Primes.ofGrids (ps.map (·.rows)) = .ok primes) (hps : ps = before ++ p :: after)
      (hbefore : ∀ q ∈ before, ∃ ss, q.rows.strands limit primes = .ok ss)
      (hp : p.rows.Strays limit primes f) : Strays limit ps f
  | row {primes : List Nat} {before after : List (List Strand)} {ss : List Strand}
      (hprimes : Primes.ofGrids (ps.map (·.rows)) = .ok primes)
      (hlexed : strandsOf limit primes ps = .ok (before ++ ss :: after))
      (hbefore : ∃ tss, tokensFrom primes 0 before = .ok tss) (hss : Arrangement.Strays ss) :
      Strays limit ps .badValue

/-- **Reading strays exactly on a lost strand or on a bare row.** -/
theorem assemble_eq_stray (hps : ps ≠ []) (hne : ∀ p ∈ ps, p.rows ≠ []) :
    assemble limit ps = .error f ∧ f.isStray = true ↔ Strays limit ps f := by
  obtain ⟨n, -, hprimes, hpos, hlen⟩ :=
    Primes.exists_ofGrids (by simpa using hps) (List.forall_mem_map.mpr hne)
  rw [List.forall_mem_map, ← Primes.length_table hpos] at hlen
  have hstages : assemble limit ps = (do
      let sss ← strandsOf limit (Primes.table n) ps
      let tss ← tokensFrom (Primes.table n) 0 sss
      return List.zipWith Glyph.mk ps tss) := by
    rw [assemble_eq, hprimes]
    rfl
  -- All strands are in a glyph, and so on its rows.
  have hrows : ∀ sss, strandsOf limit (Primes.table n) ps = .ok sss → ∀ ss ∈ sss,
      (∀ s ∈ ss, s.pos.y.toNat < (Primes.table n).length) ∧
        ∀ s ∈ ss, ∀ p, s.meaning = .ref p → p.y.toNat < (Primes.table n).length :=
    fun sss hsss ss hss => by
      obtain ⟨p, hp, hstrands⟩ := Outcome.exists_of_mem_mapM hsss hss
      exact Grid.strands_rows hstrands (hlen p hp)
  rw [hstages]
  constructor
  · rintro ⟨h, hf⟩
    obtain hsss | ⟨sss, hsss, h⟩ := Outcome.bind_eq_error.mp h
    · obtain ⟨before, p, after, rfl, hbefore, herror⟩ := Outcome.mapM_eq_error.mp hsss
      exact .strand hprimes rfl hbefore ((Grid.strands_eq_stray (hlen p (by simp))).mp ⟨herror, hf⟩)
    · obtain htss | ⟨tss, -, h⟩ := Outcome.bind_eq_error.mp h
      · obtain ⟨before, ss, after, rfl, hbefore, herror⟩ := tokensFrom_eq_error.mp htss
        obtain ⟨hrow, href⟩ := hrows _ hsss ss (by simp)
        obtain ⟨rfl, hstray⟩ := (Arrangement.tokens_eq_stray _ hrow href).mp ⟨herror, hf⟩
        exact .row hprimes hsss hbefore hstray
      · cases h
  · intro hstray
    cases hstray with
    | strand hp hsplit hbefore hstray =>
      obtain rfl := Except.ok.inj (hprimes.symm.trans hp)
      subst hsplit
      obtain ⟨herror, hf⟩ := (Grid.strands_eq_stray (hlen _ (by simp))).mpr hstray
      refine ⟨Outcome.bind_eq_error.mpr (.inl (Outcome.mapM_eq_error.mpr ?_)), hf⟩
      exact ⟨_, _, _, rfl, hbefore, herror⟩
    | row hp hlexed hbefore hstray =>
      obtain rfl := Except.ok.inj (hprimes.symm.trans hp)
      obtain ⟨hrow, href⟩ := hrows _ hlexed _ (List.mem_append_right _ List.mem_cons_self)
      obtain ⟨herror, hf⟩ := (Arrangement.tokens_eq_stray _ hrow href).mpr ⟨rfl, hstray⟩
      refine ⟨Outcome.bind_eq_error.mpr (.inr ⟨_, hlexed, ?_⟩), hf⟩
      refine Outcome.bind_eq_error.mpr (.inl (tokensFrom_eq_error.mpr ?_))
      exact ⟨_, _, _, rfl, hbefore, herror⟩

end Program

/-- **Bad drawings are reported, but for these**: once its glyphs are located, a program is read, or
reported as wrong, or nested beyond the limit, unless one of its strands leads off its glyph, counts
a column beyond the table or acts from list to list by an unknown number, or one of its glyphs
refers to a row where only a question marker stands. -/
theorem stray_fault_iff (limit : Nat) (text : String) (ps : List Panel) (f : Fault)
    (hps : (Program.grid text).panels? = some ps) (hne : ps ≠ []) :
    Program.parseWithin limit text = .error f ∧ f.isStray = true ↔ Program.Strays limit ps f := by
  unfold Program.parseWithin
  rw [Program.parseGrid_of_panels hps hne]
  exact Program.assemble_eq_stray hne (Grid.rows_ne_nil_of_panels hps)

/-- A corner that leads off the glyph. -/
theorem stray_fault_iff_off :
    (Program.grid "╵ ╰╯\n    ╷").panels? = some [⟨1, ["  ╰╯".toList, "     ".toList]⟩] ∧
      Program.parseWithin nestingLimit "╵ ╰╯\n    ╷" = .error .wrongKind ∧
      Program.Strays nestingLimit [⟨1, ["  ╰╯".toList, "     ".toList]⟩] .wrongKind := by
  have hpanels : (Program.grid "╵ ╰╯\n    ╷").panels? =
      some [⟨1, ["  ╰╯".toList, "     ".toList]⟩] := by cbv
  have hparse : Program.parseWithin nestingLimit "╵ ╰╯\n    ╷" = .error .wrongKind := by cbv
  refine ⟨hpanels, hparse, ?_⟩
  exact (stray_fault_iff _ _ _ _ hpanels (List.cons_ne_nil _ _)).mp ⟨hparse, rfl⟩

/-- **Four drawings that are not reported**: a corner that leads off the glyph, an action from list
to list whose number `5` stands for no command, a strand down a column beyond the table, and a
second question marker on a row where only the first one stands. -/
theorem stray_faults :
    Program.parseWithin nestingLimit "╵ ╰╯\n    ╷" = .error .wrongKind ∧
    Program.parseWithin nestingLimit "╵╭\n │\n │\n │\n │\n │\n ╷  ╷" =
      .error (.missingCommand (some 5)) ∧
    Program.parseWithin nestingLimit "╵ \n ╭──────╮\n        ││\n        ╰╯ ╷" =
      .error .outOfRange ∧
    Program.parseWithin nestingLimit "╵╷ ╷\n ╰─╯ ╷" = .error .badValue := by
  refine ⟨?_, ?_, ?_, ?_⟩ <;> cbv

end StrandScript
