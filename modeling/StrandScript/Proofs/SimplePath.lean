import Mathlib.Data.List.Induction
import StrandScript.Proofs.Overlap
import StrandScript.Proofs.StrayFaults

/-!
# Strands run on simple paths

Following a strand has no counter of its own, and yet it ends on every drawing, however its lines
loop, cross or touch themselves. A line can be run backwards, and no line turns round on itself
(`not_leads_back`), so a line that comes to a place again came to all places before it again, back
to the hook; and nothing but the strand itself joins a hook (`IsHook.pos_ne`). So a strand passes no
place twice, and with as many calls as the glyph has cells it has come to its end or to a fault
(`strand_simple`).

* `Trail`: what was visited on the way, also before a fault, and what it came to.
* `Strand.trail`: the trail of a strand, which ends as `Strand.walk` does (`walk_eq_result`).
* `Strand.Connected`: each cell lies next to the one before, in the direction recorded there.
-/

namespace StrandScript

open Relation

/-! ## Trails -/

/-- What following a strand comes to: the cells that were visited, and the sums and the end, or the
fault. -/
structure Trail where
  cells : List Cell
  outcome : Except Fault (Sums × Stop)

namespace Trail

/-- What following a strand gives: the cells are told only if it comes to an end. -/
def result (t : Trail) : Except Fault (List Cell × Sums × Stop) :=
  t.outcome.map fun (sums, stop) => (t.cells, sums, stop)

/-- A trail with one more cell before it. -/
def after (c : Cell) (t : Trail) : Trail := { t with cells := c :: t.cells }

/-- The cells beyond which the strand was followed: all but the last one, and that one too if the
strand leads off the grid. -/
def passed (t : Trail) : List Cell := t.cells.filter (·.dir.isSome)

/-- The sides by which the strand left the cells that it passed. -/
def sides (t : Trail) : List Side := t.cells.filterMap fun c => c.dir.map (Side.mk c.pos)

theorem map_pos_sides (t : Trail) : t.sides.map (·.pos) = t.passed.map (·.pos) := by
  obtain ⟨cells, outcome⟩ := t
  unfold sides passed
  induction cells with
  | nil => rfl
  | cons c cells ih =>
    cases hc : c.dir with
    | none => simpa [hc] using ih
    | some e => simpa [hc] using ih

end Trail

namespace Strand

open Grid

/-- A strand followed from `p` in direction `d` with at most `limit` calls. A cell keeps the
direction in which the strand was followed beyond it. -/
def trail (g : Grid) (primes : List Nat) (hookX : Int) : Nat → Pos → Dir → Sums → Trail
  | 0, _, _, _ => ⟨[], .error .tooDeep⟩
  | limit + 1, p, d, sums =>
    match g.char? (p.step d) with
    | none => ⟨[], .error .wrongKind⟩
    | some c =>
      let last : Cell := ⟨c, p.step d, none⟩
      match Sign.ofChar? c with
      | none => ⟨[last], .error (if c == ' ' then .blankCell (p.step d) else .unknownSign c)⟩
      | some s =>
        match sumsAfter primes hookX sums s (p.step d) (s.through d) with
        | .error f => ⟨[last], .error f⟩
        | .ok sums =>
          if s.mayEnd && !g.proceeds s (p.step d) (s.through d) then
            ⟨[last], .ok (sums, ⟨s, p.step d, d, s.through d⟩)⟩
          else
            match s.through d with
            | none => ⟨[last], .error (.complaint (.noReading (p.step d)))⟩
            | some e => (trail g primes hookX limit (p.step d) e sums).after ⟨c, p.step d, some e⟩

theorem sumsAfter_ne_tooDeep {primes : List Nat} {hookX : Int} {sums : Sums} {s : Sign} {p : Pos}
    {exit : Option Dir} : sumsAfter primes hookX sums s p exit ≠ .error .tooDeep := by
  unfold sumsAfter
  split
  · rw [ne_eq, addRun_eq_error]
    simp
  · simp

/-- Each cell lies next to the one before it, in the direction in which that one was left. Only the
last one need not have been left. -/
def Connected : Pos → Dir → List Cell → Prop
  | _, _, [] => True
  | p, d, c :: cs => c.pos = p.step d ∧ c.dir.elim (cs = []) fun e => Connected c.pos e cs

/-- All that one call comes to: it stops, with at most one cell, which is not left, or it passes a
cell and calls again. -/
theorem trail_cases (g : Grid) (primes : List Nat) (hookX : Int) (p : Pos) (d : Dir) (sums : Sums) :
    (∃ t : Trail, t.outcome ≠ .error .tooDeep ∧
      (t.cells = [] ∨ ∃ c, g.char? (p.step d) = some c ∧ t.cells = [⟨c, p.step d, none⟩]) ∧
      ∀ limit, trail g primes hookX (limit + 1) p d sums = t) ∨
    ∃ c s e sums', g.char? (p.step d) = some c ∧ Sign.ofChar? c = some s ∧ s.through d = some e ∧
      ∀ limit, trail g primes hookX (limit + 1) p d sums =
        (trail g primes hookX limit (p.step d) e sums').after ⟨c, p.step d, some e⟩ := by
  let last (c : Char) : List Cell := [⟨c, p.step d, none⟩]
  cases hc : g.char? (p.step d) with
  | none =>
    exact .inl ⟨⟨[], .error .wrongKind⟩, by simp, .inl rfl, fun limit => by simp only [trail, hc]⟩
  | some c =>
    cases hs : Sign.ofChar? c with
    | none =>
      refine .inl ⟨⟨last c, .error (if c == ' ' then .blankCell (p.step d) else .unknownSign c)⟩,
        ?_, .inr ⟨c, rfl, rfl⟩, fun limit => by simp only [trail, hc, hs, last]⟩
      simp only [ne_eq, Except.error.injEq]
      split <;> simp
    | some s =>
      cases hsums : sumsAfter primes hookX sums s (p.step d) (s.through d) with
      | error f =>
        refine .inl ⟨⟨last c, .error f⟩, ?_, .inr ⟨c, rfl, rfl⟩, fun limit => by
          simp only [trail, hc, hs, hsums, last]⟩
        rintro ⟨rfl⟩
        exact sumsAfter_ne_tooDeep hsums
      | ok sums' =>
        cases hend : s.mayEnd && !g.proceeds s (p.step d) (s.through d) with
        | true =>
          refine .inl ⟨⟨last c, .ok (sums', ⟨s, p.step d, d, s.through d⟩)⟩, by simp,
            .inr ⟨c, rfl, rfl⟩, fun limit => ?_⟩
          simp only [trail, hc, hs, hsums, hend, if_true, last]
        | false =>
          cases he : s.through d with
          | none =>
            rw [he] at hsums hend
            refine .inl ⟨⟨last c, .error (.complaint (.noReading (p.step d)))⟩, by simp,
              .inr ⟨c, rfl, rfl⟩, fun limit => ?_⟩
            simp only [trail, hc, hs, he, hsums, hend, Bool.false_eq_true, if_false, last]
          | some e =>
            rw [he] at hsums hend
            refine .inr ⟨c, s, e, sums', rfl, hs, he, fun limit => ?_⟩
            simp only [trail, hc, hs, he, hsums, hend, Bool.false_eq_true, if_false]

/-- All but the last of connected cells have been left. -/
theorem Connected.dropLast_sublist {p : Pos} {d : Dir} {cs : List Cell} (h : Connected p d cs) :
    cs.dropLast.Sublist (cs.filter (·.dir.isSome)) := by
  induction cs generalizing p d with
  | nil => exact .slnil
  | cons c cs ih =>
    obtain ⟨-, hrest⟩ := h
    cases hc : c.dir with
    | none =>
      rw [hc] at hrest
      obtain rfl : cs = [] := hrest
      exact List.nil_sublist _
    | some e =>
      rw [hc] at hrest
      rw [List.filter_cons_of_pos (by rw [hc]; rfl)]
      cases cs with
      | nil => exact List.nil_sublist _
      | cons c' cs => exact (ih hrest).cons_cons c

variable {g : Grid} {primes : List Nat} {hookX : Int} {limit : Nat} {p : Pos} {d : Dir}
    {sums : Sums}

/-- **Following a strand comes to what its trail comes to.** -/
theorem walk_eq_result {w : Nat} (hg : g.Rectangular w) {c : Char} (hp : g.char? p = some c)
    (limit : Nat) (d : Dir) (sums : Sums) :
    walk g primes hookX limit p d sums = (trail g primes hookX limit p d sums).result := by
  induction limit generalizing p c d sums with
  | zero => rfl
  | succ limit ih =>
    cases hc : g.char? (p.step d) with
    | none =>
      rw [walk_succ, neighbor_eq hg hp, hc]
      simp only [trail, hc]
      rfl
    | some c' =>
      cases hs : Sign.ofChar? c' with
      | none =>
        rw [walk_succ, neighbor_eq hg hp, hc]
        simp only [trail, hc, Option.map_some, bind, Except.bind, Option.elim_some, hs,
          Option.elim_none]
        rfl
      | some s =>
        rw [walk_sign hg hp hc hs]
        simp only [trail, hc, hs]
        cases sumsAfter primes hookX sums s (p.step d) (s.through d) with
        | error f => rfl
        | ok sums' =>
          simp only [bind, Except.bind]
          split
          · rfl
          · cases s.through d with
            | none => rfl
            | some e =>
              simp only [Option.elim_some, ih hc]
              unfold Trail.result Trail.after
              cases (trail g primes hookX limit (p.step d) e sums').outcome <;> rfl

/-- More calls than it takes change nothing. -/
theorem trail_stable (h : (trail g primes hookX limit p d sums).outcome ≠ .error .tooDeep) {n : Nat}
    (hn : limit ≤ n) : trail g primes hookX n p d sums = trail g primes hookX limit p d sums := by
  induction limit generalizing p d sums n with
  | zero => exact absurd rfl h
  | succ limit ih =>
    obtain ⟨n, rfl⟩ : ∃ m, n = m + 1 := ⟨n - 1, by omega⟩
    obtain ⟨t, -, -, ht⟩ | ⟨c, s, e, sums', -, -, -, ht⟩ := trail_cases g primes hookX p d sums
    · rw [ht, ht]
    · rw [ht] at h
      rw [ht, ht, ih h (Nat.le_of_succ_le_succ hn)]

/-- A trail that is given up has passed a cell with every call. -/
theorem length_passed_of_tooDeep
    (h : (trail g primes hookX limit p d sums).outcome = .error .tooDeep) :
    (trail g primes hookX limit p d sums).passed.length = limit := by
  induction limit generalizing p d sums with
  | zero => rfl
  | succ limit ih =>
    obtain ⟨t, hne, -, ht⟩ | ⟨c, s, e, sums', -, -, -, ht⟩ := trail_cases g primes hookX p d sums
    · rw [ht] at h
      exact absurd h hne
    · rw [ht] at h ⊢
      exact congrArg Nat.succ (ih h)

theorem connected_trail (limit : Nat) (p : Pos) (d : Dir) (sums : Sums) :
    Connected p d (trail g primes hookX limit p d sums).cells := by
  induction limit generalizing p d sums with
  | zero => trivial
  | succ limit ih =>
    obtain ⟨t, -, hcells, ht⟩ | ⟨c, s, e, sums', -, -, -, ht⟩ := trail_cases g primes hookX p d sums
    · rw [ht]
      obtain hnil | ⟨c, -, hone⟩ := hcells
      · rw [hnil]
        trivial
      · rw [hone]
        exact ⟨rfl, rfl⟩
    · rw [ht]
      exact ⟨rfl, ih _ _ _⟩

/-- The cells of a trail are those of the grid. -/
theorem char?_of_mem_trail {c : Cell} (h : c ∈ (trail g primes hookX limit p d sums).cells) :
    g.char? c.pos = some c.symbol := by
  induction limit generalizing p d sums with
  | zero => cases h
  | succ limit ih =>
    obtain ⟨t, -, hcells, ht⟩ | ⟨c', s, e, sums', hc, -, -, ht⟩ :=
      trail_cases g primes hookX p d sums
    · rw [ht] at h
      obtain hnil | ⟨c', hc, hone⟩ := hcells
      · rw [hnil] at h
        cases h
      · rw [hone, List.mem_singleton] at h
        rw [h, hc]
    · rw [ht] at h
      rcases List.mem_cons.mp h with rfl | h
      · exact hc
      · exact ih h

/-- A trail passes the signs that let strands through. -/
theorem sign_of_mem_passed {c : Cell} (h : c ∈ (trail g primes hookX limit p d sums).passed) :
    ∃ s, Sign.ofChar? c.symbol = some s ∧ ∃ d e, s.through d = some e := by
  induction limit generalizing p d sums with
  | zero => cases h
  | succ limit ih =>
    obtain ⟨t, -, hcells, ht⟩ | ⟨c', s, e, sums', -, hs, he, ht⟩ :=
      trail_cases g primes hookX p d sums
    · rw [ht, Trail.passed] at h
      obtain hnil | ⟨c', -, hone⟩ := hcells
      · rw [hnil] at h
        cases h
      · rw [hone] at h
        cases h
    · rw [ht] at h
      rcases List.mem_cons.mp h with rfl | h
      · exact ⟨s, hs, d, e, he⟩
      · exact ih h

/-- A trail runs along a line. -/
theorem turns_trail (limit : Nat) (p : Pos) (d : Dir) (sums : Sums) :
    List.IsChain g.Turns (⟨p, d⟩ :: (trail g primes hookX limit p d sums).sides) := by
  induction limit generalizing p d sums with
  | zero => exact .singleton _
  | succ limit ih =>
    obtain ⟨t, -, hcells, ht⟩ | ⟨c, s, e, sums', hc, hs, he, ht⟩ :=
      trail_cases g primes hookX p d sums
    · rw [ht, Trail.sides]
      obtain hnil | ⟨c, -, hone⟩ := hcells
      · rw [hnil]
        exact .singleton _
      · rw [hone]
        exact .singleton _
    · rw [ht]
      exact .cons_cons ⟨rfl, s, by rw [sign?, hc, Option.bind_some, hs], he⟩ (ih _ _ _)

end Strand

/-! ## Lines from a hook -/

namespace Grid

variable {g : Grid} {a b : Side} {h : Hook}

theorem not_turns_back (g : Grid) (a : Side) : ¬ g.Turns a a.back := by
  rintro ⟨-, s, -, ht⟩
  exact Sign.through_ne_opposite s a.dir ht

/-- A line does not end as the back of where it begins: without its first and last steps it would be
a shorter line that does. -/
theorem getLast?_ne_back {l : List Side} (hl : l.IsChain g.Turns) (ha : l.head? = some a) :
    l.getLast? ≠ some a.back := by
  induction l using List.bidirectionalRec generalizing a with
  | nil => cases ha
  | singleton b =>
    obtain rfl := Option.some.inj ha
    intro hlast
    have hdir : b.dir = b.dir.opposite := congrArg Side.dir (Option.some.inj hlast)
    exact Dir.opposite_ne b.dir hdir.symm
  | cons_append b m c ih =>
    obtain rfl := Option.some.inj ha
    rw [← List.cons_append, List.getLast?_concat, ne_eq, Option.some.injEq]
    rintro rfl
    cases m with
    | nil => exact not_turns_back g b (List.isChain_pair.mp hl)
    | cons x m =>
      obtain ⟨hfirst, hrest⟩ := List.isChain_cons_cons.mp hl
      have hsplit : ((x :: m) ++ [b.back]).IsChain g.Turns := hrest
      obtain ⟨hm, -, hlast⟩ := List.isChain_append.mp hsplit
      obtain ⟨y, hy⟩ : ∃ y, (x :: m).getLast? = some y :=
        ⟨_, List.getLast?_eq_getLast_of_ne_nil (List.cons_ne_nil x m)⟩
      have hstep : g.Turns y b.back := hlast y hy b.back rfl
      have hback := hstep.back
      rw [Side.back_back] at hback
      obtain rfl : x = y.back := turns_rightUnique g hfirst hback
      apply ih hm rfl
      rw [hy, Side.back_back]

/-- **No line turns round on itself.** -/
theorem not_leads_back (g : Grid) (a : Side) : ¬ ReflTransGen g.Turns a a.back := by
  intro hl
  obtain ⟨l, hchain, hlast⟩ := List.exists_isChain_cons_of_relationReflTransGen hl
  apply getLast?_ne_back hchain rfl
  rw [List.getLast?_eq_getLast_of_ne_nil (List.cons_ne_nil a l), hlast]

/-- A line from a hook never comes back to it. -/
theorem IsHook.pos_ne (hh : g.IsHook h) (hab : TransGen g.Turns h.side b) : b.pos ≠ h.pos := by
  intro hpos
  obtain ⟨a, ha, ht⟩ := TransGen.tail'_iff.mp hab
  rw [hh.eq_back (hh.open_of_leads ha) ht hpos] at ha
  exact not_leads_back g _ ha

/-- **A line from a hook passes no place twice.** A place that it comes to again it enters as
before, and came to the place before that again, or the other way round, and turned round on
itself. -/
theorem IsHook.pos_ne_of_leads (hh : g.IsHook h) (ha : ReflTransGen g.Turns h.side a)
    (hab : TransGen g.Turns a b) : b.pos ≠ a.pos := by
  induction ha generalizing b with
  | refl => exact hh.pos_ne hab
  | @tail a₀ a ha₀ ht ih =>
    intro hpos
    obtain ⟨b₀, hb₀, ht'⟩ := TransGen.tail'_iff.mp hab
    rcases ht.meet ht' hpos.symm with rfl | rfl
    · exact ih (TransGen.head' ht hb₀) rfl
    · exact not_leads_back g a hb₀

/-! ## Glyphs -/

variable {w : Nat} {primes : List Nat} {hookX : Int} {limit : Nat} {sums : Sums}

/-- The cells of a rectangle. -/
theorem length_cells (hg : g.Rectangular w) : g.cells.length = g.length * w := by
  have hrow : ∀ r ∈ g.zipIdx, (r.1.zipIdx.map fun a => ((⟨a.2, r.2⟩ : Pos), a.1)).length = w := by
    intro r hr
    rw [List.length_map, List.length_zipIdx]
    exact hg r.1 (List.fst_mem_of_mem_zipIdx hr)
  unfold cells
  rw [List.length_flatMap, List.map_congr_left hrow, List.map_const', List.sum_replicate,
    List.length_zipIdx, smul_eq_mul]

/-- **A strand passes no place twice**, nor its hook. -/
theorem IsHook.nodup_passed (hh : g.IsHook h) (limit : Nat) (sums : Sums) :
    (h.pos :: (Strand.trail g primes hookX limit h.pos h.dir sums).passed.map (·.pos)).Nodup := by
  have hchain : List.IsChain g.Turns
      (h.side :: (Strand.trail g primes hookX limit h.pos h.dir sums).sides) :=
    Strand.turns_trail limit h.pos h.dir sums
  have hlines := (hchain.imp fun _ _ => TransGen.single).pairwise
  rw [← Trail.map_pos_sides]
  show (List.map (·.pos) (h.side :: _)).Nodup
  rw [List.Nodup, List.pairwise_map]
  refine hlines.imp_of_mem fun {a b} ha hb hab => ?_
  have hlead : ReflTransGen g.Turns h.side a := by
    rcases List.mem_cons.mp ha with rfl | ha
    · exact .refl
    · exact (List.rel_of_pairwise_cons hlines ha).to_reflTransGen
  exact (hh.pos_ne_of_leads hlead hab).symm

/-- A strand passes fewer cells than its grid has. -/
theorem IsHook.length_passed_lt (hg : g.Rectangular w) (hh : g.IsHook h) (limit : Nat)
    (sums : Sums) :
    (Strand.trail g primes hookX limit h.pos h.dir sums).passed.length < g.length * w := by
  obtain ⟨c, hc, -⟩ := Option.bind_eq_some_iff.mp hh.sign
  have hsub : h.pos :: (Strand.trail g primes hookX limit h.pos h.dir sums).passed.map (·.pos) ⊆
      g.cells.map (·.1) := by
    refine List.cons_subset.mpr ⟨List.mem_map_of_mem (mem_cells.mpr hc), ?_⟩
    intro q hq
    obtain ⟨x, hx, rfl⟩ := List.mem_map.mp hq
    have hchar := Strand.char?_of_mem_trail (List.mem_of_mem_filter hx)
    exact List.mem_map_of_mem (mem_cells.mpr hchar)
  have hle := (List.subperm_of_subset (hh.nodup_passed limit sums) hsub).length_le
  rw [List.length_map, length_cells hg, List.length_cons, List.length_map] at hle
  exact hle

end Grid

/-- Only straight lines and corners let strands through. -/
theorem Sign.straight_or_corner {s : Sign} {d e : Dir} (h : s.through d = some e) :
    s.isStraight = true ∨ s.hasPlace .corner = true := by
  cases s with
  | opening | closing | stubLeft | stubRight => cases d <;> cases h
  | vertical | horizontal => exact .inl rfl
  | downLeft | downRight | upRight | upLeft => exact .inr rfl

/-- With `calls` calls and more, following the strand of a hook comes to the same end, or to the
same fault, and it went along a simple path. -/
structure Hook.EndsWithin (calls : Nat) (g : Grid) (primes : List Nat) (h : Hook) (t : Trail) :
    Prop where
  trail : ∀ limit, calls ≤ limit → Strand.trail g primes h.pos.x limit h.pos h.dir .none = t
  result : ∀ limit, calls ≤ limit → Strand.walk g primes h.pos.x limit h.pos h.dir .none = t.result
  ends : t.outcome ≠ .error .tooDeep
  length : t.cells.length ≤ calls
  /-- The cells are those of the grid, each next to the one before. -/
  cells : ∀ c ∈ t.cells, g.char? c.pos = some c.symbol
  connected : Strand.Connected h.pos h.dir t.cells
  passes : t.cells.dropLast.Sublist t.passed
  /-- The hook and the cells that were passed are pairwise different. -/
  distinct : (h.pos :: t.passed.map (·.pos)).Nodup
  signs : ∀ c ∈ t.passed, ∃ s, Sign.ofChar? c.symbol = some s ∧
    (s.isStraight = true ∨ s.hasPlace .corner = true)

theorem Grid.IsHook.endsWithin {g : Grid} {w : Nat} (hg : g.Rectangular w) (primes : List Nat)
    {h : Hook} (hh : g.IsHook h) : ∃ t, h.EndsWithin (g.length * w) g primes t := by
  obtain ⟨c, hc, -⟩ := Option.bind_eq_some_iff.mp hh.sign
  have hlt : (Strand.trail g primes h.pos.x (g.length * w) h.pos h.dir .none).passed.length <
      g.length * w := hh.length_passed_lt hg _ _
  have hends : (Strand.trail g primes h.pos.x (g.length * w) h.pos h.dir .none).outcome ≠
      .error .tooDeep := by
    intro hdeep
    rw [Strand.length_passed_of_tooDeep hdeep] at hlt
    exact Nat.lt_irrefl _ hlt
  have hstable := fun limit hle => Strand.trail_stable (n := limit) hends hle
  have hconnected : Strand.Connected h.pos h.dir
      (Strand.trail g primes h.pos.x (g.length * w) h.pos h.dir .none).cells :=
    Strand.connected_trail _ _ _ _
  refine ⟨_, hstable, fun limit hle => ?_, hends, ?_, fun c hc => Strand.char?_of_mem_trail hc,
    hconnected, hconnected.dropLast_sublist, hh.nodup_passed _ _, fun c hc => ?_⟩
  · rw [Strand.walk_eq_result hg hc, hstable limit hle]
  · have hle := hconnected.dropLast_sublist.length_le
    rw [List.length_dropLast] at hle
    exact Nat.le_of_pred_lt (Nat.lt_of_le_of_lt hle hlt)
  · obtain ⟨s, hs, d, e, he⟩ := Strand.sign_of_mem_passed hc
    exact ⟨s, hs, Sign.straight_or_corner he⟩

theorem Meaning.ofStop_ne_tooDeep (kind : Kind) (sums : Sums) (stop : Stop) :
    Meaning.ofStop kind sums stop ≠ .error .tooDeep := by
  cases kind with
  | question | marker => exact fun h => by cases h
  | data =>
    simp only [Meaning.ofStop]
    split <;> simp
  | action =>
    simp only [Meaning.ofStop]
    split
    · split
      · simp
      · split <;> simp
    · split <;> simp

/-- **Following a strand ends on a simple path**, on every drawing: from each hook of a glyph it
comes to an end or to a fault, with at most as many calls as the glyph, filled up to a rectangle,
has cells. So no glyph takes more. -/
theorem strand_simple (g : Grid) (primes : List Nat) :
    (∃ hooks, g.pad.hooks = .ok hooks ∧
      ∀ h ∈ hooks, ∃ t, h.EndsWithin (g.length * g.width) g.pad primes t) ∧
    ∀ limit, g.length * g.width ≤ limit → g.strands limit primes ≠ .error .tooDeep := by
  have hrect := Grid.rectangular_pad g
  obtain ⟨hooks, hhooks⟩ := Grid.exists_hooks hrect
  have hends : ∀ h ∈ hooks, ∃ t, h.EndsWithin (g.length * g.width) g.pad primes t := fun h hh => by
    rw [← Grid.length_pad]
    exact (Grid.isHook_of_hooksAt hrect (fun _ ha => Grid.mem_cells.mp ha) hhooks h hh).endsWithin
      hrect primes
  refine ⟨⟨hooks, hhooks, hends⟩, fun limit hle hdeep => ?_⟩
  have hstrands : g.strands limit primes = hooks.mapM (Strand.ofHook limit primes g.pad) := by
    rw [Grid.strands, hhooks]
    rfl
  rw [hstrands] at hdeep
  obtain ⟨before, h, after, rfl, -, herror⟩ := Outcome.mapM_eq_error.mp hdeep
  obtain ⟨t, ht⟩ := hends h (by simp)
  obtain hwalk | ⟨⟨cells, sums, stop⟩, -, hk⟩ := Outcome.bind_eq_error.mp herror
  · rw [ht.result limit hle, Trail.result] at hwalk
    apply ht.ends
    cases hout : t.outcome with
    | error f =>
      rw [hout] at hwalk
      exact congrArg Except.error (Except.error.inj hwalk)
    | ok r =>
      rw [hout] at hwalk
      cases hwalk
  · obtain hm | ⟨m, -, hk⟩ := Outcome.bind_eq_error.mp hk
    · exact Meaning.ofStop_ne_tooDeep _ _ _ hm
    · cases hk

/-- A line that runs into itself: the strand ends on a cell that it has passed. -/
theorem strand_simple_loop :
    Grid.hooks (Grid.pad ["╰──╮".toList, " ╰─╯".toList]) =
      .ok [⟨.upRight, ⟨0, 0⟩, .right, .data⟩, ⟨.upRight, ⟨1, 1⟩, .right, .data⟩] ∧
    ∃ t, Hook.EndsWithin 8 (Grid.pad ["╰──╮".toList, " ╰─╯".toList]) [1, 2, 3, 5]
        ⟨.upRight, ⟨0, 0⟩, .right, .data⟩ t ∧
      t.cells.map (·.pos) = [⟨1, 0⟩, ⟨2, 0⟩, ⟨3, 0⟩, ⟨3, 1⟩, ⟨2, 1⟩, ⟨1, 1⟩, ⟨1, 0⟩] ∧
      Grid.strands 8 [1, 2, 3, 5] ["╰──╮".toList, " ╰─╯".toList] ≠ .error .tooDeep := by
  have hhooks : Grid.hooks (Grid.pad ["╰──╮".toList, " ╰─╯".toList]) =
      .ok [⟨.upRight, ⟨0, 0⟩, .right, .data⟩, ⟨.upRight, ⟨1, 1⟩, .right, .data⟩] := by
        decide +kernel
  obtain ⟨⟨hooks, heq, hends⟩, hdeep⟩ := strand_simple ["╰──╮".toList, " ╰─╯".toList] [1, 2, 3, 5]
  obtain rfl := Except.ok.inj (hhooks.symm.trans heq)
  obtain ⟨t, ht⟩ := hends _ List.mem_cons_self
  refine ⟨hhooks, t, ht, ?_, hdeep 8 (by decide)⟩
  rw [← ht.trail 8 (by decide)]
  decide +kernel

end StrandScript
