import StrandScript.Proofs.PathSums
import StrandScript.Proofs.SimplePath

/-!
# Mirror images

A glyph read from right to left: its rows turned round, and each of its signs with them. The signs,
and the ways in which they join, begin and end strands, are symmetric but for one thing: a hook that
is left up or down may begin a strand of another kind than its mirror image. So a strand that leaves
its hook sideways is drawn again on the mirror image, cell by cell, and comes to the same end or to
the same fault (`Strand.trail_mirror`); and what it counted to the right it now counts to the left
(`mirror_negates`).

* `Grid.mirror`: the mirror image of a glyph; `Pos.mirror`, `Dir.mirror`, `Sign.mirror`: of its
  parts.
* `Grid.hookAt_mirror`: hooks that are left sideways have their mirror images.
* `Trail.Mirrors`: a trail and its mirror image, the sum along rows with the other sign.
-/

namespace StrandScript

/-! ## Places and signs -/

/-- The direction in the mirror. -/
def Dir.mirror : Dir → Dir
  | .left => .right
  | .right => .left
  | d => d

/-- The place in the mirror, on a grid of width `w`. -/
def Pos.mirror (w : Nat) (p : Pos) : Pos := ⟨w - 1 - p.x, p.y⟩

/-- The sign in the mirror. -/
def Sign.mirror : Sign → Sign
  | .downLeft => .downRight
  | .downRight => .downLeft
  | .upRight => .upLeft
  | .upLeft => .upRight
  | .stubLeft => .stubRight
  | .stubRight => .stubLeft
  | s => s

/-- The character that draws a sign in the mirror; any other character stays as it is. -/
def Sign.mirrorChar : Char → Char
  | '╰' => '╯'
  | '╯' => '╰'
  | '╮' => '╭'
  | '╭' => '╮'
  | '└' => '┘'
  | '┘' => '└'
  | '┐' => '┌'
  | '┌' => '┐'
  | '╴' => '╶'
  | '╶' => '╴'
  | c => c

/-- The mirror image of a grid: each row from right to left. -/
def Grid.mirror (g : Grid) : Grid := g.map fun r => r.reverse.map Sign.mirrorChar

@[simp] theorem Dir.opposite_mirror (d : Dir) : d.mirror.opposite = d.opposite.mirror := by
  cases d <;> rfl

theorem Pos.step_mirror (w : Nat) (p : Pos) (d : Dir) :
    (p.mirror w).step d.mirror = (p.step d).mirror w := by
  cases d <;> simp [Dir.mirror, step, mirror] <;> omega

namespace Sign

theorem through_mirror (s : Sign) (d : Dir) :
    s.mirror.through d.mirror = (s.through d).map Dir.mirror := by
  cases s <;> cases d <;> rfl

@[simp] theorem isStraight_mirror (s : Sign) : s.mirror.isStraight = s.isStraight := by
  cases s <;> rfl

@[simp] theorem mayEnd_mirror (s : Sign) : s.mirror.mayEnd = s.mayEnd := by cases s <;> rfl

theorem points_mirror (s : Sign) (d : Dir) : s.mirror.points d.mirror = s.points d := by
  cases s <;> cases d <;> rfl

theorem joins_mirror (s : Sign) (d : Dir) : s.mirror.joins d.mirror = s.joins d := by
  cases s <;> cases d <;> rfl

theorem marksAgainst_mirror (s : Sign) (d : Dir) :
    s.mirror.marksAgainst d.mirror = s.marksAgainst d := by
  cases s <;> cases d <;> rfl

/-- Only sideways a sign and its mirror image begin the same kind of strand. -/
theorem startKind?_mirror (s : Sign) {d : Dir} (h : d.isHorizontal = true) :
    s.mirror.startKind? d.mirror = s.startKind? d := by
  cases d with
  | up | down => cases h
  | left | right => cases s <;> rfl

/-- A character that draws no sign looks the same in the mirror. -/
theorem mirrorChar_of_none {c : Char} (h : ofChar? c = none) : mirrorChar c = c := by
  unfold mirrorChar
  split
  case h_11 => rfl
  all_goals cases h

theorem ofChar?_mirrorChar (c : Char) : ofChar? (mirrorChar c) = (ofChar? c).map mirror := by
  cases hc : ofChar? c with
  | none => rw [mirrorChar_of_none hc, hc, Option.map_none]
  | some s =>
    have hmem := mem_chars_iff.mpr hc
    cases s with
    | opening | closing | vertical | horizontal | stubLeft | stubRight =>
      obtain rfl := List.mem_singleton.mp hmem
      rfl
    | downLeft | downRight | upRight | upLeft =>
      rcases List.mem_pair.mp hmem with rfl | rfl <;> rfl

theorem mirrorChar_mirrorChar (c : Char) : mirrorChar (mirrorChar c) = c := by
  cases hc : ofChar? c with
  | none => rw [mirrorChar_of_none hc, mirrorChar_of_none hc]
  | some s =>
    have hmem := mem_chars_iff.mpr hc
    cases s with
    | opening | closing | vertical | horizontal | stubLeft | stubRight =>
      obtain rfl := List.mem_singleton.mp hmem
      rfl
    | downLeft | downRight | upRight | upLeft =>
      rcases List.mem_pair.mp hmem with rfl | rfl <;> rfl

theorem mirrorChar_inj {c c' : Char} : mirrorChar c = mirrorChar c' ↔ c = c' :=
  (Function.LeftInverse.injective mirrorChar_mirrorChar).eq_iff

end Sign

/-! ## Grids -/

namespace Grid

variable {g : Grid} {w : Nat} {p : Pos} {c : Char} {d : Dir}

theorem rectangular_mirror (hg : g.Rectangular w) : g.mirror.Rectangular w := by
  refine List.forall_mem_map.mpr fun r hr => ?_
  rw [List.length_map, List.length_reverse, hg r hr]

theorem length_mirror (g : Grid) : g.mirror.length = g.length := List.length_map _

/-- **The character in the mirror.** -/
theorem char?_mirror (hg : g.Rectangular w) (p : Pos) :
    g.mirror.char? (p.mirror w) = (g.char? p).map Sign.mirrorChar := by
  by_cases hp : (g.char? p).isSome = true
  · obtain ⟨c, hc⟩ := Option.isSome_iff_exists.mp hp
    obtain ⟨x, y, rfl, r, hr, hx⟩ := exists_of_char? hc
    have hw := hg r (List.mem_of_getElem? hr)
    obtain ⟨hlt, -⟩ := List.getElem?_eq_some_iff.mp hx
    have hpos : Pos.mirror w ⟨x, y⟩ = ⟨(w - 1 - x : Nat), y⟩ := by
      simp only [Pos.mirror, Pos.mk.injEq, and_true]
      omega
    rw [hpos, char?_natCast, hc, mirror, List.getElem?_map, hr]
    simp only [Option.map_some, Option.bind_some, List.getElem?_map]
    rw [List.getElem?_reverse (by omega), show r.length - 1 - (w - 1 - x) = x by omega, hx]
    rfl
  · have hmirror : ¬ (g.mirror.char? (p.mirror w)).isSome = true := by
      rw [isSome_char? (rectangular_mirror hg), length_mirror]
      rw [isSome_char? hg] at hp
      simp only [Pos.mirror]
      omega
    rw [Option.not_isSome_iff_eq_none] at hp hmirror
    rw [hp, hmirror, Option.map_none]

theorem sign?_mirror (hg : g.Rectangular w) (p : Pos) :
    g.mirror.sign? (p.mirror w) = (g.sign? p).map Sign.mirror := by
  unfold sign?
  rw [char?_mirror hg]
  cases g.char? p with
  | none => rfl
  | some c => exact Sign.ofChar?_mirrorChar c

theorem proceeds_mirror (hg : g.Rectangular w) (s : Sign) (p : Pos) (exit : Option Dir) :
    g.mirror.proceeds s.mirror (p.mirror w) (exit.map Dir.mirror) = g.proceeds s p exit := by
  cases exit with
  | none => rfl
  | some e =>
    simp only [proceeds, Option.map_some, Option.any_some, Sign.isStraight_mirror, Pos.step_mirror,
      sign?_mirror hg, Option.any_map, Dir.opposite_mirror, Sign.points_mirror]

/-! ## Hooks -/

theorem joined_mirror (hg : g.Rectangular w) (p : Pos) (d : Dir) :
    g.mirror.joined (p.mirror w) d.mirror = g.joined p d := by
  simp only [joined, Pos.step_mirror, sign?_mirror hg, Option.any_map, Dir.opposite_mirror,
    Sign.joins_mirror]

theorem linked_mirror (hg : g.Rectangular w) (hp : g.char? p = some c) {s : Sign}
    (hs : Sign.ofChar? c = some s) (d : Dir) :
    g.mirror.linked (p.mirror w) d.mirror = g.linked p d := by
  have hp' : g.mirror.char? (p.mirror w) = some (Sign.mirrorChar c) := by
    rw [char?_mirror hg, hp, Option.map_some]
  have hs' : Sign.ofChar? (Sign.mirrorChar c) = some s.mirror := by
    rw [Sign.ofChar?_mirrorChar, hs, Option.map_some]
  have hmark : (s.mirror == .opening || s.mirror == .closing) =
      (s == .opening || s == .closing) := by
    cases s <;> rfl
  have hsame : ((g.char? (p.step d)).map Sign.mirrorChar == some (Sign.mirrorChar c)) =
      (g.char? (p.step d) == some c) := by
    cases g.char? (p.step d) with
    | none => rfl
    | some c' =>
      rw [Bool.eq_iff_iff, beq_iff_eq, beq_iff_eq, Option.map_some, Option.some_inj,
        Option.some_inj, Sign.mirrorChar_inj]
  rw [linked_eq (rectangular_mirror hg) hp' hs', linked_eq hg hp hs, joined_mirror hg,
    Pos.step_mirror, char?_mirror hg, hsame, hmark]

end Grid

/-- The hook in the mirror. -/
def Hook.mirror (w : Nat) (h : Hook) : Hook := ⟨h.sign.mirror, h.pos.mirror w, h.dir.mirror, h.kind⟩

namespace Grid

variable {g : Grid} {w : Nat} {p : Pos} {c : Char} {d : Dir}

theorem linkedDirs_mirror (hg : g.Rectangular w) (hp : g.char? p = some c) {s : Sign}
    (hs : Sign.ofChar? c = some s) (ds : List Dir) :
    g.mirror.linkedDirs (p.mirror w) (ds.map Dir.mirror) =
      (g.linkedDirs p ds).map (·.map Dir.mirror) := by
  induction ds with
  | nil => rfl
  | cons d ds ih =>
    rw [List.map_cons, linkedDirs, linkedDirs, linked_mirror hg hp hs]
    refine Outcome.bind_map_same fun here => Outcome.bind_map ih fun rest => ?_
    cases here with
    | true => rfl
    | false => rfl

/-- A sign that begins strands is joined to others as its mirror image is. -/
theorem linkReadings_mirror {s : Sign} (h : s.hasPlace .start = true) :
    ∃ r r', linkReadings s.readings = .ok [r] ∧ linkReadings s.mirror.readings = .ok [r'] ∧
      r'.dirs = r.dirs.map Dir.mirror := by
  cases s with
  | opening | vertical | horizontal | stubLeft | stubRight => cases h
  | closing | downLeft | downRight | upRight | upLeft => exact ⟨_, _, rfl, rfl, rfl⟩

theorem links_mirror (hg : g.Rectangular w) (hp : g.char? p = some c) {s : Sign}
    (hs : Sign.ofChar? c = some s) (hstart : s.hasPlace .start = true) :
    g.mirror.links (p.mirror w) s.mirror.readings =
      (g.links p s.readings).map (·.map (·.map Dir.mirror)) := by
  obtain ⟨r, r', hr, hr', hdirs⟩ := linkReadings_mirror hstart
  unfold links
  rw [hr, hr']
  simp only [bind, Except.bind, hdirs, linkedDirs_mirror hg hp hs]
  cases g.linkedDirs p r.dirs <;> rfl

/-- **A hook that is left sideways has its mirror image.** -/
theorem hookAt_mirror (hg : g.Rectangular w) (hp : g.char? p = some c) {h : Hook}
    (hh : g.hookAt p c = .ok (some h)) (hdir : h.dir.isHorizontal = true) :
    g.mirror.hookAt (p.mirror w) (Sign.mirrorChar c) = .ok (some (h.mirror w)) := by
  unfold hookAt at hh ⊢
  cases hs : Sign.ofChar? c with
  | none =>
    rw [hs] at hh
    cases hh
  | some s =>
    rw [Sign.ofChar?_mirrorChar, hs]
    simp only [hs, Option.map_some] at hh ⊢
    have hplace : s.mirror.hasPlace .start = s.hasPlace .start := by cases s <;> rfl
    rw [hplace]
    cases hstart : s.hasPlace .start with
    | false =>
      rw [hstart] at hh
      cases hh
    | true =>
      rw [hstart, if_pos rfl] at hh
      rw [if_pos rfl, links_mirror hg hp hs hstart]
      obtain ⟨ds, hds, hh⟩ := Outcome.bind_eq_ok.mp hh
      rw [hds]
      match ds, hh with
      | some [d], hh =>
        obtain ⟨k, hk, rfl⟩ := Option.map_eq_some_iff.mp (Except.ok.inj hh)
        show Except.ok ((s.mirror.startKind? d.mirror).map _) = _
        rw [Sign.startKind?_mirror s hdir, hk]
        rfl

theorem mem_hooksAt {cs : List (Pos × Char)} {hs : List Hook} (h : g.hooksAt cs = .ok hs)
    {k : Hook} :
    k ∈ hs ↔ ∃ a ∈ cs, g.hookAt a.1 a.2 = .ok (some k) := by
  induction cs generalizing hs with
  | nil =>
    cases h
    simp
  | cons a cs ih =>
    obtain ⟨here, hhere, h⟩ := Outcome.bind_eq_ok.mp h
    obtain ⟨later, hlater, h⟩ := Outcome.bind_eq_ok.mp h
    cases h
    rw [List.mem_append, ih hlater, List.exists_mem_cons_iff, hhere]
    simp [Option.mem_toList, eq_comm]

theorem mem_hooks_mirror (hg : g.Rectangular w) {hs hs' : List Hook} (hhs : g.hooks = .ok hs)
    (hhs' : g.mirror.hooks = .ok hs') {h : Hook} (hh : h ∈ hs) (hdir : h.dir.isHorizontal = true) :
    h.mirror w ∈ hs' := by
  obtain ⟨⟨p, c⟩, ha, hat⟩ := (mem_hooksAt hhs).mp hh
  have hp := mem_cells.mp ha
  refine (mem_hooksAt hhs').mpr ⟨(p.mirror w, Sign.mirrorChar c), mem_cells.mpr ?_,
    hookAt_mirror hg hp hat hdir⟩
  rw [char?_mirror hg, hp, Option.map_some]

end Grid

/-! ## Strands -/

/-- The cell in the mirror. -/
def Cell.mirror (w : Nat) (c : Cell) : Cell :=
  ⟨Sign.mirrorChar c.symbol, c.pos.mirror w, c.dir.map Dir.mirror⟩

/-- The end of a strand in the mirror. -/
def Stop.mirror (w : Nat) (s : Stop) : Stop :=
  ⟨s.sign.mirror, s.pos.mirror w, s.entry.mirror, s.exit.map Dir.mirror⟩

/-- The same fault at the place in the mirror. -/
def Fault.mirror (w : Nat) : Fault → Fault
  | .blankCell p => .blankCell (p.mirror w)
  | .complaint (.noReading p) => .complaint (.noReading (p.mirror w))
  | f => f

/-- A trail and its mirror image: the same cells in the mirror, and the same end or the same fault.
What was counted along rows has the other sign. -/
inductive Trail.Mirrors (w : Nat) : Trail → Trail → Prop
  | fails {cells : List Cell} {f : Fault} :
      Mirrors w ⟨cells, .error f⟩ ⟨cells.map (Cell.mirror w), .error (f.mirror w)⟩
  | ends {cells : List Cell} {sums sums' : Sums} {stop : Stop}
      (hsums : sums'.across = sums.across.map (-·)) :
      Mirrors w ⟨cells, .ok (sums, stop)⟩ ⟨cells.map (Cell.mirror w), .ok (sums', stop.mirror w)⟩

theorem Trail.Mirrors.after {w : Nat} {t t' : Trail} (h : Mirrors w t t') (c : Cell) :
    Mirrors w (t.after c) (t'.after (c.mirror w)) := by
  cases h with
  | fails => exact .fails
  | ends hsums => exact .ends hsums

namespace Strand

variable {w : Nat} {primes : List Nat} {hookX hookX' : Int} {p : Pos} {d : Dir} {sums sums' : Sums}

/-- The columns of a grid are in a table of the grid's width. -/
theorem columnIndex_lt {x : Int} (hw : w ≤ primes.length) (hhook : 0 ≤ hookX ∧ hookX < w)
    (hx : 0 ≤ x ∧ x < w) : columnIndex hookX x < primes.length := by
  unfold columnIndex
  rw [Int.fdiv_eq_ediv_of_nonneg _ (by decide)]
  omega

theorem exists_addRun (hrow : p.y.toNat < primes.length)
    (hcolumn : columnIndex hookX p.x < primes.length) (sums : Sums) (e : Dir) :
    ∃ t, addRun primes hookX sums p e = .ok t := by
  cases h : addRun primes hookX sums p e with
  | ok t => exact ⟨t, rfl⟩
  | error f =>
    obtain ⟨-, hle⟩ := addRun_eq_error.mp h
    unfold runIndex at hle
    split at hle
    · omega
    · omega

/-- What a run counts along its row it counts in the mirror with the other sign. -/
theorem addRun_mirror (hrow : p.y.toNat < primes.length)
    (hcolumn : columnIndex hookX p.x < primes.length)
    (hcolumn' : columnIndex hookX' (p.mirror w).x < primes.length)
    (hsums : sums'.across = sums.across.map (-·)) (e : Dir) :
    ∃ t t' : Sums, addRun primes hookX sums p e = .ok t ∧
      addRun primes hookX' sums' (p.mirror w) e.mirror = .ok t' ∧
        t'.across = t.across.map (-·) := by
  have hgetD : sums'.across.getD 0 = -(sums.across.getD 0) := by
    rw [hsums]
    cases sums.across <;> rfl
  obtain ⟨t, ht⟩ := exists_addRun hrow hcolumn sums e
  have hrow' : (p.mirror w).y.toNat < primes.length := hrow
  obtain ⟨t', ht'⟩ := exists_addRun hrow' hcolumn' sums' e.mirror
  refine ⟨t, t', ht, ht', ?_⟩
  rw [(Grid.addRun_eq_ok ht).2, (Grid.addRun_eq_ok ht').2]
  simp only [Sums.plus, Option.map_some, Option.some.injEq, hgetD, Pos.mirror]
  cases e <;> simp [Dir.mirror, Int.add_comm]

/-- **What a sign adds to the sums, and what it adds in the mirror.** -/
theorem sumsAfter_mirror (hrow : p.y.toNat < primes.length)
    (hcolumn : columnIndex hookX p.x < primes.length)
    (hcolumn' : columnIndex hookX' (p.mirror w).x < primes.length)
    (hsums : sums'.across = sums.across.map (-·)) (s : Sign) (d : Dir) :
    ∃ t t' : Sums, Grid.sumsAfter primes hookX sums s p (s.through d) = .ok t ∧
      Grid.sumsAfter primes hookX' sums' s.mirror (p.mirror w) ((s.through d).map Dir.mirror) =
        .ok t' ∧
      t'.across = t.across.map (-·) := by
  unfold Grid.sumsAfter
  rw [Sign.isStraight_mirror]
  cases s.isStraight with
  | false => exact ⟨sums, sums', rfl, rfl, hsums⟩
  | true =>
    cases s.through d with
    | none => exact ⟨sums, sums', rfl, rfl, hsums⟩
    | some e => exact addRun_mirror hrow hcolumn hcolumn' hsums e

/-- **A trail has its mirror image.** -/
theorem trail_mirror {g : Grid} (hg : g.Rectangular w) (hlen : g.length ≤ primes.length)
    (hw : w ≤ primes.length) (hhook : 0 ≤ hookX ∧ hookX < w) (hhook' : 0 ≤ hookX' ∧ hookX' < w)
    (hsums : sums'.across = sums.across.map (-·)) (limit : Nat) (p : Pos) (d : Dir) :
    Trail.Mirrors w (trail g primes hookX limit p d sums)
      (trail g.mirror primes hookX' limit (p.mirror w) d.mirror sums') := by
  induction limit generalizing p d sums sums' with
  | zero => exact .fails
  | succ limit ih =>
    simp only [trail, Pos.step_mirror, Grid.char?_mirror hg]
    cases hc : g.char? (p.step d) with
    | none => exact .fails
    | some c =>
      simp only [Option.map_some, Sign.ofChar?_mirrorChar]
      cases hs : Sign.ofChar? c with
      | none =>
        rw [Sign.mirrorChar_of_none hs]
        have hcell : (⟨c, (p.step d).mirror w, none⟩ : Cell) =
            Cell.mirror w ⟨c, p.step d, none⟩ := by
          rw [Cell.mirror, Sign.mirrorChar_of_none hs, Option.map_none]
        have hfault : (if c == ' ' then Fault.blankCell ((p.step d).mirror w) else .unknownSign c) =
            Fault.mirror w (if c == ' ' then .blankCell (p.step d) else .unknownSign c) := by
          split <;> rfl
        simp only [Option.map_none, hcell, hfault]
        exact .fails
      | some s =>
        obtain ⟨hx, hxw, -, -⟩ := (Grid.isSome_char? hg (p.step d)).mp (by rw [hc]; rfl)
        have hcolumn := columnIndex_lt hw hhook ⟨hx, hxw⟩
        have hcolumn' : columnIndex hookX' ((p.step d).mirror w).x < primes.length :=
          columnIndex_lt hw hhook' (by simp only [Pos.mirror]; omega)
        obtain ⟨t, t', ht, ht', hacross⟩ :=
          sumsAfter_mirror (Grid.row_lt hlen hc) hcolumn hcolumn' hsums s d
        simp only [Option.map_some, ht, ht', Sign.mayEnd_mirror, Sign.through_mirror,
          Grid.proceeds_mirror hg]
        split
        · exact .ends hacross
        · cases s.through d with
          | none => exact .fails
          | some e => exact (ih hacross (p.step d) e).after _

end Strand

/-! ## What strands say in the mirror -/

/-- What an action applies to, in the mirror. -/
def Scope.mirror (w : Nat) : Scope → Scope
  | .listToList p => .listToList (p.mirror w)
  | s => s

/-- What a strand says in the mirror: places are mirrored, and values have the other sign. -/
def Meaning.mirror (w : Nat) : Meaning → Meaning
  | .value n => .value (n.map (-·))
  | .ref p => .ref (p.mirror w)
  | .question p => .question (p.mirror w)
  | .act n c scope => .act n c (scope.mirror w)

/-- The strand in the mirror. -/
def Strand.mirror (w : Nat) (s : Strand) : Strand :=
  ⟨s.hook.mirror w, s.cells.map (Cell.mirror w), s.meaning.mirror w⟩

/-- The end of a data strand always says something, and the same in the mirror. -/
theorem Meaning.ofStop_mirror (w : Nat) {sums sums' : Sums}
    (hsums : sums'.across = sums.across.map (-·)) (stop : Stop) :
    ∃ m, Meaning.ofStop .data sums stop = .ok m ∧
      Meaning.ofStop .data sums' (stop.mirror w) = .ok (m.mirror w) := by
  have hmark : (stop.mirror w).sign.marksAgainst (stop.mirror w).entry =
      stop.sign.marksAgainst stop.entry := Sign.marksAgainst_mirror _ _
  simp only [Meaning.ofStop, hmark, hsums]
  split
  · exact ⟨_, rfl, rfl⟩
  · exact ⟨_, rfl, rfl⟩

/-- **A strand from a hook that is left sideways, and its mirror image.** -/
theorem Strand.ofHook_mirror {g : Grid} {w : Nat} {primes : List Nat} (hg : g.Rectangular w)
    (hlen : g.length ≤ primes.length) (hw : w ≤ primes.length) {h : Hook} (hkind : h.kind = .data)
    (hpos : (g.char? h.pos).isSome = true) (limit : Nat) :
    (trail g.mirror primes (h.mirror w).pos.x limit (h.mirror w).pos (h.mirror w).dir .none).cells =
      (trail g primes h.pos.x limit h.pos h.dir .none).cells.map (Cell.mirror w) ∧
    ofHook limit primes g.mirror (h.mirror w) =
      ((ofHook limit primes g h).map (Strand.mirror w)).mapError (Fault.mirror w) := by
  obtain ⟨c, hc⟩ := Option.isSome_iff_exists.mp hpos
  have hc' : g.mirror.char? (h.mirror w).pos = some (Sign.mirrorChar c) := by
    rw [Hook.mirror, Grid.char?_mirror hg, hc, Option.map_some]
  obtain ⟨hx, hxw, -, -⟩ := (Grid.isSome_char? hg h.pos).mp hpos
  have hhook' : 0 ≤ (h.mirror w).pos.x ∧ (h.mirror w).pos.x < w := by
    simp only [Hook.mirror, Pos.mirror]
    omega
  unfold ofHook
  rw [walk_eq_result (Grid.rectangular_mirror hg) hc', walk_eq_result hg hc]
  have htrail : Trail.Mirrors w _ _ := trail_mirror hg hlen hw ⟨hx, hxw⟩ hhook'
    (show Sums.none.across = Sums.none.across.map (-·) from rfl) limit h.pos h.dir
  generalize trail g primes h.pos.x limit h.pos h.dir .none = t at htrail ⊢
  generalize htrail' : trail g.mirror primes (h.mirror w).pos.x limit
    (h.pos.mirror w) h.dir.mirror .none =
    t' at htrail
  change trail g.mirror primes (h.mirror w).pos.x limit (h.mirror w).pos (h.mirror w).dir .none = t'
    at htrail'
  rw [htrail']
  cases htrail with
  | fails => exact ⟨rfl, rfl⟩
  | @ends cells sums sums' stop hsums =>
    obtain ⟨m, hm, hm'⟩ := Meaning.ofStop_mirror w hsums stop
    rw [← hkind] at hm hm'
    refine ⟨rfl, ?_⟩
    show (Meaning.ofStop h.kind sums' (stop.mirror w) >>= fun m =>
      pure (Strand.mk (h.mirror w) _ m)) =
      ((Meaning.ofStop h.kind sums stop >>= fun m => pure (Strand.mk h cells m)).map _).mapError _
    rw [hm, hm']
    rfl

namespace Grid

variable {g : Grid} {w : Nat}

theorem pad_of_rectangular (hg : g.Rectangular w) : g.pad = g := by
  cases g with
  | nil => rfl
  | cons r g =>
    have hwidth : width (r :: g) = w :=
      width_eq (fun r hr => (hg r hr).le) ⟨r, List.mem_cons_self, hg r List.mem_cons_self⟩
    unfold pad
    refine (List.map_congr_left fun r hr => ?_).trans (List.map_id _)
    rw [hwidth, hg r hr, Nat.sub_self, List.replicate_zero, List.append_nil, id]

end Grid

theorem Primes.ofGrids_mirror (gs : List Grid) :
    Primes.ofGrids (gs.map Grid.mirror) = Primes.ofGrids gs := by
  refine Primes.ofGrids_map Grid.length_mirror (fun g => ?_) gs
  cases g with
  | nil => rfl
  | cons r g => exact congrArg Except.ok (by rw [List.length_map, List.length_reverse])

/-- The table for some grids has all their rows, and all columns of their first rows. -/
theorem Primes.sides_le_length {gs : List Grid} {primes : List Nat}
    (h : Primes.ofGrids gs = .ok primes) {g : Grid} (hg : g ∈ gs) :
    g ≠ [] ∧ g.length ≤ primes.length ∧ (g.headD []).length ≤ primes.length := by
  obtain ⟨n, hn, rfl⟩ := Primes.ofGrids_eq_ok h
  have hpos : ∀ g ∈ gs, 1 ≤ g.length ∧ g.length ≤ n := fun g hg => Primes.longestSide_bounds hn hg
  have hne : ∀ g ∈ gs, g ≠ [] := fun g hg => List.length_pos_iff.mp (hpos g hg).1
  obtain ⟨m, hm, hle, -⟩ := Primes.longestSide_cases hne
  obtain rfl := Except.ok.inj (hm.symm.trans hn)
  rw [Primes.length_table ((hpos g hg).1.trans (hpos g hg).2)]
  exact ⟨hne g hg, hle g hg⟩

/-- **The mirror image negates a value.** Let a rectangular glyph be one of some grids, and take the
table of primes for them. The mirror images of the grids have the same table. A hook of the glyph
that begins a data strand sideways has its mirror image among the hooks of the mirror image; the
strand from there visits the cells in the mirror, and ends in the same way: it fails with the same
fault, or it is the mirror image of the strand, with a value of the other sign or a reference to the
place in the mirror. -/
theorem mirror_negates (gs : List Grid) (primes : List Nat)
    (hprimes : Primes.ofGrids gs = .ok primes) (g : Grid) (hmem : g ∈ gs) (w : Nat)
    (hg : g.Rectangular w) (hooks : List Hook) (hhooks : g.pad.hooks = .ok hooks) (h : Hook)
    (hh : h ∈ hooks) (hkind : h.kind = .data) (hdir : h.dir.isHorizontal = true) (limit : Nat) :
    Primes.ofGrids (gs.map Grid.mirror) = .ok primes ∧
    (∃ hooks', g.mirror.pad.hooks = .ok hooks' ∧ h.mirror w ∈ hooks') ∧
    (Strand.trail g.mirror.pad primes (h.mirror w).pos.x limit (h.mirror w).pos (h.mirror w).dir
        .none).cells =
      (Strand.trail g.pad primes h.pos.x limit h.pos h.dir .none).cells.map (Cell.mirror w) ∧
    Strand.ofHook limit primes g.mirror.pad (h.mirror w) =
      ((Strand.ofHook limit primes g.pad h).map (Strand.mirror w)).mapError (Fault.mirror w) := by
  rw [Grid.pad_of_rectangular hg] at hhooks ⊢
  rw [Grid.pad_of_rectangular (Grid.rectangular_mirror hg)]
  obtain ⟨hne, hlen, hhead⟩ := Primes.sides_le_length hprimes hmem
  have hw : w ≤ primes.length := by
    cases g with
    | nil => exact absurd rfl hne
    | cons r g => exact (hg r List.mem_cons_self).symm.trans_le hhead
  obtain ⟨hooks', hhooks'⟩ := Grid.exists_hooks (Grid.rectangular_mirror hg)
  obtain ⟨c, hc, -⟩ := Option.bind_eq_some_iff.mp
    (Grid.isHook_of_hooksAt hg (fun _ ha => Grid.mem_cells.mp ha) hhooks h hh).sign
  refine ⟨(Primes.ofGrids_mirror gs).trans hprimes,
    ⟨hooks', hhooks', Grid.mem_hooks_mirror hg hhooks hhooks' hh hdir⟩, ?_⟩
  exact Strand.ofHook_mirror hg hlen hw hkind (by rw [hc]; rfl) limit

/-- A strand that winds: it runs to the right for two cells, turns, and comes back on the second
row. -/
theorem mirror_negates_wound :
    Strand.ofHook 9 [1, 2, 3, 5] (Grid.pad ["╰──╮".toList, " ──╯".toList])
        ⟨.upRight, ⟨0, 0⟩, .right, .data⟩ =
      .ok ⟨⟨.upRight, ⟨0, 0⟩, .right, .data⟩,
        [⟨'─', ⟨1, 0⟩, some .right⟩, ⟨'─', ⟨2, 0⟩, some .right⟩, ⟨'╮', ⟨3, 0⟩, some .down⟩,
          ⟨'╯', ⟨3, 1⟩, some .left⟩, ⟨'─', ⟨2, 1⟩, some .left⟩, ⟨'─', ⟨1, 1⟩, none⟩],
        .value (some (-2))⟩ ∧
    Strand.ofHook 9 [1, 2, 3, 5] (Grid.pad ["╭──╯".toList, "╰── ".toList])
        ⟨.upLeft, ⟨3, 0⟩, .left, .data⟩ =
      .ok ⟨⟨.upLeft, ⟨3, 0⟩, .left, .data⟩,
        [⟨'─', ⟨2, 0⟩, some .left⟩, ⟨'─', ⟨1, 0⟩, some .left⟩, ⟨'╭', ⟨0, 0⟩, some .down⟩,
          ⟨'╰', ⟨0, 1⟩, some .right⟩, ⟨'─', ⟨1, 1⟩, some .right⟩, ⟨'─', ⟨2, 1⟩, none⟩],
        .value (some 2)⟩ := by
  have hstrand : Strand.ofHook 9 [1, 2, 3, 5] (Grid.pad ["╰──╮".toList, " ──╯".toList])
      ⟨.upRight, ⟨0, 0⟩, .right, .data⟩ = .ok ⟨⟨.upRight, ⟨0, 0⟩, .right, .data⟩,
        [⟨'─', ⟨1, 0⟩, some .right⟩, ⟨'─', ⟨2, 0⟩, some .right⟩, ⟨'╮', ⟨3, 0⟩, some .down⟩,
          ⟨'╯', ⟨3, 1⟩, some .left⟩, ⟨'─', ⟨2, 1⟩, some .left⟩, ⟨'─', ⟨1, 1⟩, none⟩],
        .value (some (-2))⟩ := by decide +kernel
  obtain ⟨-, -, -, hmirror⟩ := mirror_negates [["╰──╮".toList, " ──╯".toList]] [1, 2, 3, 5]
    (by decide +kernel) ["╰──╮".toList, " ──╯".toList] List.mem_cons_self 4
    (by simp [Grid.Rectangular])
    [⟨.upRight, ⟨0, 0⟩, .right, .data⟩] (by decide +kernel) ⟨.upRight, ⟨0, 0⟩, .right, .data⟩
    List.mem_cons_self rfl rfl 9
  have hgrid : Grid.pad (Grid.mirror ["╰──╮".toList, " ──╯".toList]) =
      Grid.pad ["╭──╯".toList, "╰── ".toList] := by decide +kernel
  have hhook : Hook.mirror 4 ⟨.upRight, ⟨0, 0⟩, .right, .data⟩ =
      ⟨.upLeft, ⟨3, 0⟩, .left, .data⟩ := by
    decide
  rw [hstrand, hgrid, hhook] at hmirror
  exact ⟨hstrand, hmirror.trans (by decide)⟩

end StrandScript
