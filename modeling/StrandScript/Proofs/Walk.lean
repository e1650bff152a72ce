import StrandScript.Proofs.ProgramTree
import StrandScript.Proofs.ReadingOrder
import StrandScript.Proofs.SignPlane

/-!
# Walks over a rectangle

Strands are followed on a glyph that was filled up to a rectangle, where a place has a neighbour
exactly if there is a character next to it. So following a strand is a walk from sign to sign
(`Grid.Walks`), which never leaves the rectangle, and a hook is a sign that one neighbour joins
(`Grid.IsHook`).

* `Grid.char?`, `Grid.sign?`: the character and the sign at a place, if there is one.
* `Grid.neighbor_eq`: the neighbours of a place on a rectangle.
* `Grid.strands_walks`: every strand of a glyph is a walk from its hook.
-/

namespace StrandScript

/-- A strand that refers to a place ends there. -/
theorem Meaning.pos_of_ref {kind : Kind} {sums : Sums} {stop : Stop} {p : Pos}
    (h : Meaning.ofStop kind sums stop = .ok (.ref p)) : stop.pos = p := by
  unfold Meaning.ofStop at h
  cases kind with
  | question | marker => cases h
  | data =>
    simp only at h
    split at h
    · cases h
      rfl
    · cases h
  | action =>
    simp only at h
    split at h
    · split at h
      · cases h
      · split at h <;> cases h
    · split at h <;> cases h

namespace Grid

/-- The character at a place of a grid; beyond the edges there is none. -/
def char? (g : Grid) (p : Pos) : Option Char :=
  if 0 ≤ p.x ∧ 0 ≤ p.y then (g[p.y.toNat]?).bind (·[p.x.toNat]?) else none

/-- The sign at a place of a grid. -/
def sign? (g : Grid) (p : Pos) : Option Sign := (g.char? p).bind Sign.ofChar?

/-- All rows have the same length. -/
def Rectangular (g : Grid) (w : Nat) : Prop := ∀ r ∈ g, r.length = w

variable {g : Grid} {w : Nat} {p : Pos} {c : Char}

/-! ## Places of a rectangle -/

theorem char?_natCast (g : Grid) (x y : Nat) : g.char? ⟨x, y⟩ = (g[y]?).bind (·[x]?) := by
  simp [char?]

theorem exists_of_char? (h : g.char? p = some c) :
    ∃ x y : Nat, p = ⟨x, y⟩ ∧ ∃ r, g[y]? = some r ∧ r[x]? = some c := by
  obtain ⟨x, y⟩ := p
  simp only [char?, Option.ite_none_right_eq_some, Option.bind_eq_some_iff] at h
  obtain ⟨⟨hx, hy⟩, r, hr, hc⟩ := h
  exact ⟨x.toNat, y.toNat, by rw [Int.toNat_of_nonneg hx, Int.toNat_of_nonneg hy], r, hr, hc⟩

theorem char?_bounds (h : g.char? p = some c) : 0 ≤ p.x ∧ 0 ≤ p.y ∧ p.y < g.length := by
  obtain ⟨x, y, rfl, r, hr, -⟩ := exists_of_char? h
  obtain ⟨hlt, -⟩ := List.getElem?_eq_some_iff.mp hr
  exact ⟨Int.natCast_nonneg x, Int.natCast_nonneg y, Int.ofNat_lt.mpr hlt⟩

theorem isSome_char? (hg : g.Rectangular w) (p : Pos) :
    (g.char? p).isSome = true ↔ 0 ≤ p.x ∧ p.x < w ∧ 0 ≤ p.y ∧ p.y < g.length := by
  rw [Option.isSome_iff_exists]
  constructor
  · rintro ⟨c, hc⟩
    obtain ⟨hx, hy, hlen⟩ := char?_bounds hc
    refine ⟨hx, ?_, hy, hlen⟩
    obtain ⟨x, y, rfl, r, hr, hc⟩ := exists_of_char? hc
    obtain ⟨hlt, -⟩ := List.getElem?_eq_some_iff.mp hc
    rw [hg r (List.mem_of_getElem? hr)] at hlt
    exact Int.ofNat_lt.mpr hlt
  · rintro ⟨hx, hxw, hy, hyl⟩
    obtain ⟨r, hr⟩ : ∃ r, g[p.y.toNat]? = some r := ⟨_, List.getElem?_eq_getElem (by omega)⟩
    have hw := hg r (List.mem_of_getElem? hr)
    refine ⟨r[p.x.toNat], ?_⟩
    rw [char?, if_pos ⟨hx, hy⟩, hr, Option.bind_some, List.getElem?_eq_getElem]

theorem cell_of_char? (h : g.char? p = some c) : g.cell p = .ok c := by
  obtain ⟨x, y, rfl, r, hr, hc⟩ := exists_of_char? h
  rw [cell_natCast, hr, Option.bind_some, hc]

theorem hasNeighbor_eq (hg : g.Rectangular w) (hp : g.char? p = some c) (d : Dir) :
    g.hasNeighbor p d = .ok (g.char? (p.step d)).isSome := by
  obtain ⟨hx, hxw, hy, hyl⟩ := (isSome_char? hg p).mp (Option.isSome_iff_exists.mpr ⟨c, hp⟩)
  have hstep := isSome_char? hg (p.step d)
  cases d with
  | up =>
    refine congrArg Except.ok (Bool.eq_iff_iff.mpr ?_)
    rw [hstep, decide_eq_true_iff]
    simp only [Pos.step]
    omega
  | down =>
    refine congrArg Except.ok (Bool.eq_iff_iff.mpr ?_)
    rw [hstep, decide_eq_true_iff]
    simp only [Pos.step]
    omega
  | left =>
    refine congrArg Except.ok (Bool.eq_iff_iff.mpr ?_)
    rw [hstep, decide_eq_true_iff]
    simp only [Pos.step]
    omega
  | right =>
    obtain ⟨x, y, rfl, r, hr, -⟩ := exists_of_char? hp
    have hrow : g.row (y : Int) = .ok r := by rw [row, Index.get?_natCast, hr]
    have hw := hg r (List.mem_of_getElem? hr)
    simp only [hasNeighbor, hrow, bind, Except.bind, pure, Except.pure]
    refine congrArg Except.ok (Bool.eq_iff_iff.mpr ?_)
    rw [hstep, decide_eq_true_iff]
    simp only [Pos.step] at hx hxw hy hyl ⊢
    omega

/-- **On a rectangle a place has a neighbour exactly if there is a character next to it.** -/
theorem neighbor_eq (hg : g.Rectangular w) (hp : g.char? p = some c) (d : Dir) :
    g.neighbor p d = .ok ((g.char? (p.step d)).map fun c => (c, p.step d)) := by
  unfold neighbor
  rw [hasNeighbor_eq hg hp]
  cases hq : g.char? (p.step d) with
  | none => rfl
  | some c' =>
    simp only [bind, Except.bind, Option.isSome_some, if_true, cell_of_char? hq]
    rfl

theorem mem_cells : (p, c) ∈ g.cells ↔ g.char? p = some c := by
  unfold cells
  simp only [List.mem_flatMap, List.mem_map, Prod.exists, List.mk_mem_zipIdx_iff_getElem?,
    Prod.mk.injEq]
  constructor
  · rintro ⟨r, y, hr, c', x, hc, rfl, rfl⟩
    rw [char?_natCast, hr, Option.bind_some, hc]
  · intro h
    obtain ⟨x, y, rfl, r, hr, hc⟩ := exists_of_char? h
    exact ⟨r, y, hr, c, x, hc, rfl, rfl⟩

theorem length_pad (g : Grid) : g.pad.length = g.length := List.length_map _

theorem rectangular_pad (g : Grid) : g.pad.Rectangular g.width := by
  refine List.forall_mem_map.mpr fun r hr => ?_
  have : r.length ≤ g.width := (Program.le_foldl_max _ 0).2 _ (List.mem_map_of_mem hr)
  rw [List.length_append, List.length_replicate]
  omega

/-! ## Strands -/

/-- Whether a strand goes on beyond a sign at `p` that may end it, which it would leave by
`exit`. -/
def proceeds (g : Grid) (s : Sign) (p : Pos) (exit : Option Dir) : Bool :=
  exit.any fun e => s.isStraight && (g.sign? (p.step e)).any (·.points e.opposite)

theorem goesOn_eq (hg : g.Rectangular w) (hp : g.char? p = some c) (s : Sign) (exit : Option Dir) :
    Strand.goesOn g s p exit = .ok (g.proceeds s p exit) := by
  cases exit with
  | none => rfl
  | some e =>
    simp only [Strand.goesOn, proceeds, neighbor_eq hg hp, bind, Except.bind, sign?,
      Option.any_some]
    cases g.char? (p.step e) with
    | none => simp [pure, Except.pure]
    | some c => rfl

/-- The sums after a sign at `p` that is left by `exit`: only straight lines count. -/
def sumsAfter (primes : List Nat) (hookX : Int) (sums : Sums) (s : Sign) (p : Pos)
    (exit : Option Dir) : Except Fault Sums :=
  match s.isStraight, exit with
  | true, some e => Strand.addRun primes hookX sums p e
  | _, _ => .ok sums

/-- A strand goes from `p` in direction `d` over some cells to its end, and its sums grow on the
way. -/
inductive Walks (g : Grid) (primes : List Nat) (hookX : Int) :
    Pos → Dir → Sums → List Cell → Sums → Stop → Prop
  | ends {p d c s sums sums'} (hc : g.char? (p.step d) = some c) (hs : Sign.ofChar? c = some s)
      (hsums : sumsAfter primes hookX sums s (p.step d) (s.through d) = .ok sums')
      (hend : s.mayEnd = true) (hstop : g.proceeds s (p.step d) (s.through d) = false) :
      Walks g primes hookX p d sums [⟨c, p.step d, none⟩] sums' ⟨s, p.step d, d, s.through d⟩
  | goes {p d c s e sums sums' sums'' cells stop} (hc : g.char? (p.step d) = some c)
      (hs : Sign.ofChar? c = some s) (he : s.through d = some e)
      (hsums : sumsAfter primes hookX sums s (p.step d) (some e) = .ok sums')
      (hgo : s.mayEnd = true → g.proceeds s (p.step d) (some e) = true)
      (hrest : Walks g primes hookX (p.step d) e sums' cells sums'' stop) :
      Walks g primes hookX p d sums (⟨c, p.step d, some e⟩ :: cells) sums'' stop

variable {primes : List Nat} {hookX : Int}

/-- One sign of a strand. -/
theorem walk_succ (g : Grid) (primes : List Nat) (hookX : Int) (limit : Nat) (p : Pos) (d : Dir)
    (sums : Sums) : Strand.walk g primes hookX (limit + 1) p d sums = (do
      (← g.neighbor p d).elim (.error .wrongKind) fun (c, q) =>
        (Sign.ofChar? c).elim
          (.error (if c == ' ' then .blankCell q else .unknownSign c)) fun s => do
          let sums ← sumsAfter primes hookX sums s q (s.through d)
          if s.mayEnd && !(← Strand.goesOn g s q (s.through d)) then
            return ([⟨c, q, none⟩], sums, ⟨s, q, d, s.through d⟩)
          else
            (s.through d).elim (.error (.complaint (.noReading q))) fun e => do
              let (cells, sums, stop) ← Strand.walk g primes hookX limit q e sums
              return (⟨c, q, some e⟩ :: cells, sums, stop)) := by
  rw [Strand.walk]
  refine congrArg _ (funext fun n => ?_)
  cases n with
  | none => rfl
  | some a =>
    cases hs : Sign.ofChar? a.1 with
    | none =>
      simp only [hs, Option.elim_some]
      rfl
    | some s =>
      unfold sumsAfter
      simp only [hs, Option.elim_some]
      cases s.isStraight <;> cases s.through d <;> rfl

/-- One sign of a strand that is followed on a rectangle. -/
theorem walk_sign (hg : g.Rectangular w) (hp : g.char? p = some c) {d : Dir} {c' : Char} {s : Sign}
    (hc : g.char? (p.step d) = some c') (hs : Sign.ofChar? c' = some s) (limit : Nat)
    (sums : Sums) :
    Strand.walk g primes hookX (limit + 1) p d sums = (do
      let sums ← sumsAfter primes hookX sums s (p.step d) (s.through d)
      if s.mayEnd && !g.proceeds s (p.step d) (s.through d) then
        return ([⟨c', p.step d, none⟩], sums, ⟨s, p.step d, d, s.through d⟩)
      else
        (s.through d).elim (.error (.complaint (.noReading (p.step d)))) fun e => do
          let (cells, sums, stop) ← Strand.walk g primes hookX limit (p.step d) e sums
          return (⟨c', p.step d, some e⟩ :: cells, sums, stop)) := by
  rw [walk_succ, neighbor_eq hg hp, hc]
  simp only [Option.map_some, bind, Except.bind, Option.elim_some, hs, goesOn_eq hg hc]

/-- A strand that is followed to its end on a rectangle is a walk. -/
theorem walks_of_walk (hg : g.Rectangular w) {limit : Nat} {d : Dir} {sums sums' : Sums}
    {cells : List Cell} {stop : Stop} (hp : g.char? p = some c)
    (h : Strand.walk g primes hookX limit p d sums = .ok (cells, sums', stop)) :
    g.Walks primes hookX p d sums cells sums' stop := by
  induction limit generalizing p c d sums cells with
  | zero => cases h
  | succ limit ih =>
    cases hc : g.char? (p.step d) with
    | none =>
      unfold Strand.walk at h
      simp only [neighbor_eq hg hp, hc] at h
      cases h
    | some c' =>
      cases hs : Sign.ofChar? c' with
      | none =>
        unfold Strand.walk at h
        simp only [neighbor_eq hg hp, hc, Option.map_some, bind, Except.bind, hs] at h
        cases h
      | some s =>
        rw [walk_sign hg hp hc hs] at h
        obtain ⟨sums₁, hsums, h⟩ := Outcome.bind_eq_ok.mp h
        split at h
        · rename_i hend
          simp only [Bool.and_eq_true, Bool.not_eq_true'] at hend
          cases h
          exact .ends hc hs hsums hend.1 hend.2
        · rename_i hend
          cases he : s.through d with
          | none =>
            simp only [he, Option.elim_none] at h
            cases h
          | some e =>
            simp only [he, Option.elim_some] at h hsums hend
            obtain ⟨⟨rest, sums₂, stop'⟩, hrest, h⟩ := Outcome.bind_eq_ok.mp h
            cases h
            refine .goes hc hs he hsums (fun hm => ?_) (ih hc hrest)
            simpa [hm] using hend

/-- The end of a walk lies on the grid. -/
theorem Walks.stop_inside {d : Dir} {sums sums' : Sums} {cells : List Cell} {stop : Stop}
    (h : g.Walks primes hookX p d sums cells sums' stop) : ∃ c, g.char? stop.pos = some c := by
  induction h with
  | ends hc => exact ⟨_, hc⟩
  | goes _ _ _ _ _ _ ih => exact ih

/-! ## Hooks -/

/-- The neighbour in a direction reaches back, and does not merely lead to a strand. -/
def joined (g : Grid) (p : Pos) (d : Dir) : Bool :=
  (g.sign? (p.step d)).any (·.joins d.opposite)

/-- A sign that one neighbour joins, in a direction in which it begins a strand. -/
structure IsHook (g : Grid) (h : Hook) : Prop where
  sign : g.sign? h.pos = some h.sign
  kind : h.sign.startKind? h.dir = some h.kind
  joined : g.joined h.pos h.dir = true
  alone : ∀ d ≠ h.dir, (h.sign.startKind? d).isSome → g.joined h.pos d = false

theorem linked_eq (hg : g.Rectangular w) (hp : g.char? p = some c) {s : Sign}
    (hs : Sign.ofChar? c = some s) (d : Dir) :
    g.linked p d = .ok (g.joined p d &&
      !(g.char? (p.step d) == some c && (s == .opening || s == .closing))) := by
  unfold linked joined sign?
  simp only [neighbor_eq hg hp, cell_of_char? hp, bind, Except.bind]
  cases hc : g.char? (p.step d) with
  | none => rfl
  | some c' =>
    simp only [Option.map_some, Option.bind_some]
    by_cases heq : c = c'
    · subst heq
      simp only [hs, beq_self_eq_true, Bool.true_and, Option.any_some]
      cases s == .opening || s == .closing <;> simp [pure, Except.pure]
    · have hne : (some c' == some c) = false := by simpa using Ne.symm heq
      cases Sign.ofChar? c' <;> simp [heq, hne, pure, Except.pure]

theorem linkedDirs_eq {f : Dir → Bool} {ds : List Dir} (h : ∀ d, g.linked p d = .ok (f d)) :
    g.linkedDirs p ds = .ok (ds.filter f) := by
  induction ds with
  | nil => rfl
  | cons d ds ih =>
    simp only [linkedDirs, h, ih, bind, Except.bind, pure, Except.pure, List.filter_cons]

/-- A sign that may begin a strand has one reading that joins it to others, and begins strands in
the directions of that reading. -/
theorem linkReadings_start {s : Sign} (h : s.hasPlace .start = true) :
    ∃ r, linkReadings s.readings = .ok [r] ∧ ∀ d, d ∈ r.dirs ↔ (s.startKind? d).isSome := by
  cases s with
  | opening | vertical | horizontal | stubLeft | stubRight => cases h
  | closing | downLeft | downRight | upRight | upLeft =>
    refine ⟨_, rfl, fun d => ?_⟩
    cases d <;> decide

theorem closing_start {d : Dir} (h : (Sign.closing.startKind? d).isSome) : d = .down := by
  cases d with
  | down => rfl
  | up | left | right => cases h

theorem isHook_of_hookAt (hg : g.Rectangular w) (hp : g.char? p = some c) {h : Hook}
    (hh : g.hookAt p c = .ok (some h)) : g.IsHook h := by
  have hpos := hookAt_pos hh
  unfold hookAt at hh
  cases hs : Sign.ofChar? c with
  | none =>
    rw [hs] at hh
    cases hh
  | some s =>
    simp only [hs] at hh
    split at hh
    · rename_i hstart
      obtain ⟨r, hr, hdirs⟩ := linkReadings_start hstart
      obtain ⟨ls, hls, hh⟩ := Outcome.bind_eq_ok.mp hh
      unfold links at hls
      rw [hr] at hls
      simp only [linkedDirs_eq (linked_eq hg hp hs), bind, Except.bind] at hls
      obtain rfl := Except.ok.inj hls
      split at hh
      · rename_i d hone
        obtain ⟨k, hk, rfl⟩ := Option.map_eq_some_iff.mp (Except.ok.inj hh)
        have hmem : ∀ e, (e ∈ r.dirs ∧ _) ↔ e = d := fun e => by
          rw [← List.mem_filter, Option.some.inj hone, List.mem_singleton]
        have hjoined := ((hmem d).mpr rfl).2
        simp only [Bool.and_eq_true] at hjoined
        refine ⟨by rw [sign?, hp, Option.bind_some, hs], hk, hjoined.1, fun e hne he => ?_⟩
        by_contra hj
        rw [Bool.not_eq_false] at hj
        -- Only of a closing sign a neighbour that reaches back may count for nothing, and a closing
        -- sign begins strands in one direction.
        have hmark : (s == .opening || s == .closing) = true := by
          by_contra hm
          exact hne ((hmem e).mp ⟨(hdirs e).mpr he, by simp [hj, hm]⟩)
        simp only [Bool.or_eq_true, beq_iff_eq] at hmark
        obtain rfl | rfl := hmark
        · cases hstart
        · exact hne ((closing_start he).trans (closing_start (by rw [hk]; rfl)).symm)
      · cases hh
    · cases hh

theorem isHook_of_hooksAt (hg : g.Rectangular w) {cs : List (Pos × Char)} {hs : List Hook}
    (hcs : ∀ a ∈ cs, g.char? a.1 = some a.2) (h : g.hooksAt cs = .ok hs) :
    ∀ k ∈ hs, g.IsHook k := by
  induction cs generalizing hs with
  | nil =>
    cases h
    exact fun k hk => (List.not_mem_nil hk).elim
  | cons a cs ih =>
    rw [List.forall_mem_cons] at hcs
    obtain ⟨here, hhere, h⟩ := Outcome.bind_eq_ok.mp h
    obtain ⟨later, hlater, h⟩ := Outcome.bind_eq_ok.mp h
    cases h
    intro k hk
    rcases List.mem_append.mp hk with hk | hk
    · obtain rfl := Option.mem_toList.mp hk
      exact isHook_of_hookAt hg hcs.1 hhere
    · exact ih hcs.2 hlater k hk

/-! ## Glyphs -/

variable {limit : Nat} {ss : List Strand}

theorem strands_isHook (h : g.strands limit primes = .ok ss) {s : Strand} (hs : s ∈ ss) :
    g.pad.IsHook s.hook :=
  isHook_of_hooksAt (rectangular_pad g) (fun _ ha => mem_cells.mp ha) (strands_hooks h) s.hook
    (List.mem_map_of_mem hs)

/-- **Every strand of a glyph is a walk** from its hook, and what it says depends on its sums and on
its end. -/
theorem strands_walks (h : g.strands limit primes = .ok ss) {s : Strand} (hs : s ∈ ss) :
    ∃ sums stop, g.pad.Walks primes s.hook.pos.x s.hook.pos s.hook.dir .none s.cells sums stop ∧
      Meaning.ofStop s.hook.kind sums stop = .ok s.meaning := by
  have hhook := strands_isHook h hs
  obtain ⟨hooks, -, hss⟩ := Outcome.bind_eq_ok.mp h
  obtain ⟨k, -, hk⟩ := Outcome.exists_of_mem_mapM hss hs
  obtain ⟨c, hc, -⟩ := Option.bind_eq_some_iff.mp hhook.sign
  have heq := Strand.ofHook_hook hk
  obtain ⟨⟨cells, sums, stop⟩, hwalk, hk⟩ := Outcome.bind_eq_ok.mp hk
  obtain ⟨m, hm, hk⟩ := Outcome.bind_eq_ok.mp hk
  cases hk
  exact ⟨sums, stop, walks_of_walk (rectangular_pad g) hc hwalk, hm⟩

/-- A strand that refers to a place refers to one of its glyph. -/
theorem strands_ref (h : g.strands limit primes = .ok ss) {s : Strand} (hs : s ∈ ss)
    (hp : s.meaning = .ref p) : 0 ≤ p.y ∧ p.y < g.length := by
  obtain ⟨sums, stop, hwalk, hm⟩ := strands_walks h hs
  obtain ⟨c, hc⟩ := hwalk.stop_inside
  rw [hp] at hm
  obtain rfl := Meaning.pos_of_ref hm
  rw [← length_pad]
  exact (char?_bounds hc).2

end Grid

end StrandScript
