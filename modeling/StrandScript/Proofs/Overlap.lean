import Mathlib.Logic.Relation
import StrandScript.Proofs.Walk

/-!
# Strands that overlap

A line with a hook at both ends is refused if nothing ends it beyond its second hook. Otherwise it
is read twice, once from each end, and this is the only way in which two strands of a glyph come to
share their hooks or cells that they pass (`strands_disjoint_iff`).

* `Side`: a place and a direction in which a line leaves it.
* `Grid.Turns`: from the side by which a line leaves a place to the one by which it leaves the next.
* `Grid.Tied`: a line runs between two hooks.
* `Walks.follow`: a strand follows a line as far as the signs of the line reach back.
-/

namespace StrandScript

open Relation

/-! ## Ways through a sign -/

namespace Sign

variable {s : Sign} {d e : Dir}

/-- A sign lets strands through in one direction and back again. -/
theorem through_eq (h : s.through d = some e) (d' : Dir) :
    s.through d' =
      if d' = d then some e else if d' = e.opposite then some d.opposite else none := by
  cases s <;> cases d <;> cases h <;> cases d' <;> rfl

theorem through_back (h : s.through d = some e) : s.through e.opposite = some d.opposite := by
  cases s <;> cases d <;> cases h <;> rfl

theorem through_ne_opposite (s : Sign) (d : Dir) : s.through d ≠ some d.opposite := by
  cases s <;> cases d <;> decide

theorem joins_of_through (h : s.through d = some e) :
    s.joins d.opposite = true ∧ s.joins e = true := by
  cases s <;> cases d <;> cases h <;> exact ⟨rfl, rfl⟩

theorem mayEnd_of_through (h : s.through d = some e) : s.mayEnd = s.isStraight := by
  cases s <;> cases d <;> cases h <;> rfl

theorem points_of_joins (h : s.joins d = true) : s.points d = true := by
  obtain ⟨r, hr, h⟩ := List.any_eq_true.mp h
  exact List.any_eq_true.mpr ⟨r, hr, (Bool.and_eq_true_iff.mp h).1⟩

theorem joins_of_start (h : (s.startKind? d).isSome) : s.joins d = true := by
  cases s <;> cases d <;> cases h <;> rfl

/-- No strand ends on a sign that begins strands, the closing sign apart. -/
theorem mayEnd_of_start (h : (s.startKind? d).isSome) (hs : s ≠ .closing) : s.mayEnd = false := by
  cases s with
  | closing => exact absurd rfl hs
  | opening | vertical | horizontal | stubLeft | stubRight => cases d <;> cases h
  | downLeft | downRight | upRight | upLeft => rfl

/-- Where a strand goes through a sign that begins strands, others begin. -/
theorem start_of_through {d' : Dir} (h : (s.startKind? d').isSome) (ht : s.through d = some e) :
    (s.startKind? d.opposite).isSome := by
  cases s with
  | opening | closing | stubLeft | stubRight => cases d <;> cases ht
  | vertical | horizontal => cases d' <;> cases h
  | downLeft | downRight | upRight | upLeft => cases d <;> cases ht <;> rfl

end Sign

/-! ## Lines -/

/-- A side of a place: the direction in which a line leaves it. -/
@[ext]
structure Side where
  pos : Pos
  dir : Dir
deriving DecidableEq

namespace Side

/-- The side by which the same line, run backwards, leaves the next place. -/
def back (a : Side) : Side := ⟨a.pos.step a.dir, a.dir.opposite⟩

@[simp] theorem back_back (a : Side) : a.back.back = a := by simp [back]

end Side

/-- The side by which a strand leaves its hook. -/
def Hook.side (h : Hook) : Side := ⟨h.pos, h.dir⟩

/-- The places that belong to a strand: its hook and the cells that it passes, but not its end. -/
def Strand.places (s : Strand) : List Pos := s.hook.pos :: s.cells.dropLast.map (·.pos)

namespace Grid

variable {g : Grid} {a b c : Side} {h k : Hook}

/-- A line that leaves by side `a` goes through the next place and leaves it by side `b`. -/
def Turns (g : Grid) (a b : Side) : Prop :=
  b.pos = a.pos.step a.dir ∧ ∃ s, g.sign? b.pos = some s ∧ s.through a.dir = some b.dir

/-- A line runs from one hook to the other, and comes in where the strand of the other goes out. -/
def Tied (g : Grid) (h k : Hook) : Prop := ReflTransGen g.Turns h.side k.side.back

theorem Turns.back (h : g.Turns a b) : g.Turns b.back a.back := by
  obtain ⟨hpos, s, hs, ht⟩ := h
  have hback : a.back.pos = b.pos := hpos.symm
  refine ⟨?_, s, by rw [hback, hs], Sign.through_back ht⟩
  rw [hback, Side.back, Pos.step_step_opposite]

theorem turns_rightUnique (g : Grid) : Relator.RightUnique g.Turns := by
  rintro a ⟨p, d⟩ ⟨q, e⟩ ⟨hp, s, hs, ht⟩ ⟨hq, s', hs', ht'⟩
  simp only at hp hs ht hq hs' ht'
  subst hp hq
  rw [hs] at hs'
  cases hs'
  rw [ht] at ht'
  cases ht'
  rfl

/-- Lines run backwards too. -/
theorem leads_back (h : ReflTransGen g.Turns a b) : ReflTransGen g.Turns b.back a.back := by
  induction h with
  | refl => exact .refl
  | tail _ ht ih => exact .head ht.back ih

theorem Tied.symm (ht : g.Tied h k) : g.Tied k h := by
  have := leads_back ht
  rwa [Side.back_back] at this

/-- Of two lines that come together one is a part of the other. -/
theorem leads_total (ha : ReflTransGen g.Turns a c) (hb : ReflTransGen g.Turns b c) :
    ReflTransGen g.Turns a b ∨ ReflTransGen g.Turns b a := by
  rcases ReflTransGen.total_of_right_unique (turns_rightUnique g) (leads_back ha) (leads_back hb)
    with h | h
  · have := leads_back h
    rw [Side.back_back, Side.back_back] at this
    exact Or.inr this
  · have := leads_back h
    rw [Side.back_back, Side.back_back] at this
    exact Or.inl this

/-! ## Lines and hooks -/

/-- The sign at the place joins what lies beyond the side. -/
def Open (g : Grid) (a : Side) : Prop := (g.sign? a.pos).any (·.joins a.dir) = true

theorem Turns.isOpen (h : g.Turns a b) : g.Open b := by
  obtain ⟨-, s, hs, ht⟩ := h
  rw [Open, hs]
  exact (Sign.joins_of_through ht).2

theorem IsHook.starts (hh : g.IsHook h) : (h.sign.startKind? h.dir).isSome := by
  rw [hh.kind, Option.isSome_some]

theorem IsHook.down_of_closing (hh : g.IsHook h) (hs : h.sign = .closing) : h.dir = .down :=
  closing_start (hs ▸ hh.starts)

theorem IsHook.isOpen (hh : g.IsHook h) : g.Open h.side := by
  rw [Open, Hook.side, hh.sign]
  exact Sign.joins_of_start hh.starts

theorem IsHook.open_of_leads (hh : g.IsHook h) (ha : ReflTransGen g.Turns h.side a) : g.Open a := by
  rcases ReflTransGen.cases_tail ha with rfl | ⟨b, -, ht⟩
  · exact hh.isOpen
  · exact ht.isOpen

/-- **A line goes through a hook only from where the strand of the hook goes.** -/
theorem IsHook.eq_back (hh : g.IsHook h) (ha : g.Open a) (ht : g.Turns a b) (hb : b.pos = h.pos) :
    a = h.side.back := by
  obtain ⟨hpos, s, hs, ht⟩ := ht
  rw [hb, hh.sign] at hs
  cases hs
  have hback : h.pos.step a.dir.opposite = a.pos := by
    rw [← hb, hpos, Pos.step_step_opposite]
  have hstart : (h.sign.startKind? a.dir.opposite).isSome := Sign.start_of_through hh.starts ht
  have hjoined : g.joined h.pos a.dir.opposite = true := by
    rw [Grid.joined, hback, Dir.opposite_opposite]
    exact ha
  have hdir : a.dir.opposite = h.dir := by
    by_contra hne
    rw [hh.alone _ hne hstart] at hjoined
    cases hjoined
  rw [Hook.side, Side.back, ← hdir, hback, Dir.opposite_opposite]

/-- No line comes to leave a hook by its own side. -/
theorem IsHook.not_turns (hh : g.IsHook h) (ha : g.Open a) : ¬ g.Turns a h.side := by
  intro ht
  have heq := hh.eq_back ha ht rfl
  obtain ⟨-, s, -, hthrough⟩ := ht
  rw [heq] at hthrough
  apply Sign.through_ne_opposite s h.side.back.dir
  rw [hthrough]
  simp [Side.back]

/-- No line leads from one hook out by the side of another. -/
theorem IsHook.not_leads (hh : g.IsHook h) (hk : g.IsHook k) (hne : h.pos ≠ k.pos) :
    ¬ ReflTransGen g.Turns h.side k.side := by
  intro hl
  rcases ReflTransGen.cases_tail hl with heq | ⟨a, ha, ht⟩
  · exact hne (congrArg Side.pos heq).symm
  · exact hk.not_turns (hh.open_of_leads ha) ht

/-- Lines that go through the same place are one line, run in the same direction or backwards. -/
theorem Turns.meet {a' b' : Side} (h : g.Turns a b) (h' : g.Turns a' b') (hb : b.pos = b'.pos) :
    a' = a ∨ a' = b.back := by
  obtain ⟨hpos, s, hs, ht⟩ := h
  obtain ⟨hpos', s', hs', ht'⟩ := h'
  rw [← hb, hs] at hs'
  cases hs'
  have hback : a'.pos = b.pos.step a'.dir.opposite := by rw [hb, hpos', Pos.step_step_opposite]
  rw [Sign.through_eq ht] at ht'
  split_ifs at ht' with hd hd
  · rw [hd, hpos, Pos.step_step_opposite] at hback
    exact Or.inl (Side.ext hback hd)
  · rw [hd, Dir.opposite_opposite] at hback
    exact Or.inr (Side.ext hback hd)

/-! ## Strands along lines -/

variable {primes : List Nat} {hookX : Int} {sums sums' : Sums} {cells : List Cell} {stop : Stop}

theorem Walks.ne_nil {p : Pos} {d : Dir} (h : g.Walks primes hookX p d sums cells sums' stop) :
    cells ≠ [] := by
  cases h with
  | ends => exact List.cons_ne_nil _ _
  | goes => exact List.cons_ne_nil _ _

/-- The cells that a strand passes lie on the line on which it sets out. -/
theorem Walks.leads {p q : Pos} {d : Dir} (h : g.Walks primes hookX p d sums cells sums' stop)
    (hq : q ∈ cells.dropLast.map (·.pos)) :
    ∃ a b, ReflTransGen g.Turns ⟨p, d⟩ a ∧ g.Turns a b ∧ b.pos = q := by
  induction h with
  | ends => cases hq
  | @goes p d c s e _ _ _ cells _ hc hs he _ _ hrest ih =>
    have hturn : g.Turns ⟨p, d⟩ ⟨p.step d, e⟩ :=
      ⟨rfl, s, by rw [sign?, hc, Option.bind_some, hs], he⟩
    rw [List.dropLast_cons_of_ne_nil hrest.ne_nil, List.map_cons, List.mem_cons] at hq
    rcases hq with rfl | hq
    · exact ⟨_, _, .refl, hturn, rfl⟩
    · obtain ⟨a, b, ha, ht, hq⟩ := ih hq
      exact ⟨a, b, .head hturn ha, ht, hq⟩

/-- A strand passes a sign on which none may end. -/
theorem Walks.passes {p : Pos} {d : Dir} (h : g.Walks primes hookX p d sums cells sums' stop)
    {s : Sign} (hs : g.sign? (p.step d) = some s) (hend : s.mayEnd = false) :
    p.step d ∈ cells.dropLast.map (·.pos) := by
  cases h with
  | ends hc hs' _ hend' _ =>
    rw [sign?, hc, Option.bind_some, hs'] at hs
    cases hs
    rw [hend] at hend'
    cases hend'
  | goes _ _ _ _ _ hrest =>
    rw [List.dropLast_cons_of_ne_nil hrest.ne_nil]
    exact List.mem_cons_self

/-- The sign beyond a side points back. -/
def Answered (g : Grid) (a : Side) : Prop :=
  (g.sign? (a.pos.step a.dir)).any (·.points a.dir.opposite) = true

theorem answered_of_leads (h : ReflTransGen g.Turns a b) (hb : g.Answered b) : g.Answered a := by
  rcases ReflTransGen.cases_head h with rfl | ⟨c, ⟨hpos, s, hs, ht⟩, -⟩
  · exact hb
  · rw [Answered, ← hpos, hs]
    exact Sign.points_of_joins (Sign.joins_of_through ht).1

theorem IsHook.answered (hh : g.IsHook h) : g.Answered h.side.back := by
  rw [Answered, Side.back, Pos.step_step_opposite, Dir.opposite_opposite, Hook.side, hh.sign]
  exact Sign.points_of_joins (Sign.joins_of_start hh.starts)

/-- A strand does not end on a sign that it goes through and whose next sign points back. -/
theorem Walks.turn (h : g.Walks primes hookX a.pos a.dir sums cells sums' stop) (ht : g.Turns a b)
    (hb : g.Answered b) : ∃ x sums₁ rest, x.pos = b.pos ∧ cells = x :: rest ∧
      g.Walks primes hookX b.pos b.dir sums₁ rest sums' stop := by
  obtain ⟨q, e⟩ := b
  obtain ⟨hpos, s, hs, hthrough⟩ := ht
  simp only at hpos hs hthrough
  subst hpos
  cases h with
  | ends hc hs' _ hend hstop =>
    rw [sign?, hc, Option.bind_some, hs'] at hs
    cases hs
    rw [hthrough, proceeds, Option.any_some, ← Sign.mayEnd_of_through hthrough, hend, Bool.true_and,
      show _ = true from hb] at hstop
    cases hstop
  | goes hc hs' he _ _ hrest =>
    rw [sign?, hc, Option.bind_some, hs'] at hs
    cases hs
    rw [he] at hthrough
    cases hthrough
    exact ⟨_, _, _, rfl, rfl, hrest⟩

/-- **A strand follows its line** to any side beyond which the next sign points back. -/
theorem Walks.follow (h : g.Walks primes hookX a.pos a.dir sums cells sums' stop)
    (hl : ReflTransGen g.Turns a b) (hb : g.Answered b) :
    b = a ∨ b.pos ∈ cells.dropLast.map (·.pos) := by
  induction hl using ReflTransGen.head_induction_on generalizing sums cells with
  | refl => exact Or.inl rfl
  | head ht hl ih =>
    obtain ⟨x, sums₁, rest, hx, rfl, hrest⟩ := h.turn ht (answered_of_leads hl hb)
    right
    rw [List.dropLast_cons_of_ne_nil hrest.ne_nil, List.map_cons, List.mem_cons, hx]
    rcases ih hrest with rfl | hmem
    · exact Or.inl rfl
    · exact Or.inr hmem

/-! ## Strands that share places -/

/-- A strand that is followed from its hook. -/
structure IsStrand (g : Grid) (primes : List Nat) (s : Strand) : Prop where
  hook : g.IsHook s.hook
  walk : ∃ sums stop,
    g.Walks primes s.hook.pos.x s.hook.side.pos s.hook.side.dir .none s.cells sums stop

variable {s t : Strand}

theorem IsStrand.mem_places {q : Pos} (hs : g.IsStrand primes s) (hq : q ∈ s.places) :
    q = s.hook.pos ∨ ∃ a b, ReflTransGen g.Turns s.hook.side a ∧ g.Turns a b ∧ b.pos = q := by
  obtain ⟨sums, stop, hwalk⟩ := hs.walk
  exact (List.mem_cons.mp hq).imp_right hwalk.leads

theorem IsStrand.follow (hs : g.IsStrand primes s) (hl : ReflTransGen g.Turns s.hook.side b)
    (hb : g.Answered b) : b.pos ∈ s.places := by
  obtain ⟨sums, stop, hwalk⟩ := hs.walk
  rcases hwalk.follow hl hb with rfl | hmem
  · exact List.mem_cons_self
  · exact List.mem_cons_of_mem _ hmem

/-- A line runs between the hooks of strands that share a place. -/
theorem IsStrand.tied (hs : g.IsStrand primes s) (ht : g.IsStrand primes t)
    (hne : s.hook.pos ≠ t.hook.pos) {q : Pos} (hqs : q ∈ s.places) (hqt : q ∈ t.places) :
    g.Tied s.hook t.hook := by
  rcases hs.mem_places hqs with rfl | ⟨a, b, ha, hab, rfl⟩ <;>
    rcases ht.mem_places hqt with hq | ⟨a', b', ha', hab', hq⟩
  · exact absurd hq hne
  · rw [hs.hook.eq_back (ht.hook.open_of_leads ha') hab' hq] at ha'
    exact Tied.symm ha'
  · rwa [ht.hook.eq_back (hs.hook.open_of_leads ha) hab hq] at ha
  · -- The lines go through the place the same way, and one hook would lie behind the other, or they
    -- go opposite ways, and run into each other's hooks.
    rcases hab.meet hab' hq.symm with rfl | rfl
    · rcases leads_total ha ha' with hl | hl
      · exact absurd hl (hs.hook.not_leads ht.hook hne)
      · exact absurd hl (ht.hook.not_leads hs.hook hne.symm)
    · exact Tied.symm (ha'.trans (leads_back (ha.tail hab)))

/-- A strand that sets out towards a hook next to its own passes it, unless the sign there closes a
glyph. -/
theorem IsStrand.passes (hs : g.IsStrand primes s) (hk : g.IsHook k)
    (heq : k.side.back = s.hook.side) (hsign : k.sign ≠ .closing) : k.pos ∈ s.places := by
  obtain ⟨sums, stop, hwalk⟩ := hs.walk
  rw [← heq] at hwalk
  have hpos : k.side.back.pos.step k.side.back.dir = k.pos := Pos.step_step_opposite _ _
  rw [← hpos]
  exact List.mem_cons_of_mem _
    (hwalk.passes (by rw [hpos, hk.sign]) (Sign.mayEnd_of_start hk.starts hsign))

/-- Strands share a place if a line runs between their hooks. -/
theorem IsStrand.share (hs : g.IsStrand primes s) (ht : g.IsStrand primes t)
    (htied : g.Tied s.hook t.hook) : ∃ q, q ∈ s.places ∧ q ∈ t.places := by
  rcases ReflTransGen.cases_head htied.symm with heq | ⟨b, hb, hl⟩
  · -- The hooks lie next to each other: they are not both closing signs, which begin strands
    -- downwards.
    by_cases hsign : s.hook.sign = .closing
    · refine ⟨t.hook.pos, hs.passes ht.hook (by rw [heq, Side.back_back]) fun hsign' => ?_,
        List.mem_cons_self⟩
      have hdir : t.hook.dir = s.hook.dir.opposite := congrArg Side.dir heq
      rw [hs.hook.down_of_closing hsign, ht.hook.down_of_closing hsign'] at hdir
      cases hdir
    · exact ⟨s.hook.pos, List.mem_cons_self, ht.passes hs.hook heq.symm hsign⟩
  · -- Both pass the place next to the second hook.
    refine ⟨b.pos, ?_, ht.follow (.single hb) (answered_of_leads hl hs.hook.answered)⟩
    rw [hb.1]
    exact hs.follow htied ht.hook.answered

/-! ## Glyphs -/

theorem isStrand_of_strands {limit : Nat} {ss : List Strand} (h : g.strands limit primes = .ok ss)
    (hs : s ∈ ss) : g.pad.IsStrand primes s := by
  obtain ⟨sums, stop, hwalk, -⟩ := strands_walks h hs
  exact ⟨strands_isHook h hs, sums, stop, hwalk⟩

/-- **The strands of a glyph overlap where a line runs between two hooks, and nowhere else.** -/
theorem strands_disjoint_iff (limit : Nat) (primes : List Nat) (g : Grid) (ss : List Strand)
    (h : g.strands limit primes = .ok ss) :
    (ss.Pairwise fun s t => s.places.Disjoint t.places) ↔
      ss.Pairwise fun s t => ¬ g.pad.Tied s.hook t.hook := by
  have horder := strands_readsBefore h
  constructor
  · intro hdisjoint
    refine hdisjoint.imp_of_mem fun hs ht hst htied => ?_
    obtain ⟨q, hqs, hqt⟩ := (isStrand_of_strands h hs).share (isStrand_of_strands h ht) htied
    exact hst hqs hqt
  · intro hfree
    refine (hfree.and horder).imp_of_mem fun hs ht hst q hqs hqt => hst.1 ?_
    exact (isStrand_of_strands h hs).tied (isStrand_of_strands h ht) hst.2.ne hqs hqt

/-- Two strands that lie within each other. -/
theorem strands_disjoint_nested :
    ∃ ss, strands nestingLimit [1, 2, 3, 5] ["╰──╮".toList, "╰╮─┘".toList, " ╰─ ".toList] = .ok ss ∧
      ss.length = 2 ∧ ss.Pairwise (fun s t => s.places.Disjoint t.places) ∧
      ss.Pairwise fun s t =>
        ¬ (pad ["╰──╮".toList, "╰╮─┘".toList, " ╰─ ".toList]).Tied s.hook t.hook := by
  have hplaces : (strands nestingLimit [1, 2, 3, 5]
      ["╰──╮".toList, "╰╮─┘".toList, " ╰─ ".toList]).map (·.map Strand.places) =
      .ok [[⟨0, 0⟩, ⟨1, 0⟩, ⟨2, 0⟩, ⟨3, 0⟩, ⟨3, 1⟩], [⟨0, 1⟩, ⟨1, 1⟩, ⟨1, 2⟩]] := by decide +kernel
  obtain ⟨ss, hss, hmap⟩ := Outcome.map_eq_ok.mp hplaces
  have hdisjoint : ss.Pairwise fun s t => s.places.Disjoint t.places := by
    rw [← List.pairwise_map, hmap]
    simp [List.Disjoint]
  exact ⟨ss, hss, by rw [← List.length_map, hmap]; rfl, hdisjoint,
    (strands_disjoint_iff _ _ _ ss hss).mp hdisjoint⟩

/-- **A line with a hook at both ends is read twice**, and its two strands share what they pass. -/
theorem strands_overlap_double :
    ∃ ss, strands nestingLimit [1, 2, 3, 5] ["─  ─".toList, "╰──╯".toList] = .ok ss ∧
      ¬ ss.Pairwise fun s t => s.places.Disjoint t.places := by
  have hplaces : (strands nestingLimit [1, 2, 3, 5]
      ["─  ─".toList, "╰──╯".toList]).map (·.map Strand.places) =
      .ok [[⟨0, 1⟩, ⟨1, 1⟩, ⟨2, 1⟩, ⟨3, 1⟩], [⟨3, 1⟩, ⟨2, 1⟩, ⟨1, 1⟩, ⟨0, 1⟩]] := by decide +kernel
  obtain ⟨ss, hss, hmap⟩ := Outcome.map_eq_ok.mp hplaces
  refine ⟨ss, hss, ?_⟩
  rw [← List.pairwise_map, hmap]
  simp [List.Disjoint]

end Grid

end StrandScript
