import StrandScript.Proofs.Mirror

/-!
# Columns on both sides of a hook

An action strand counts columns by half their distance from its hook. Right of the hook the half is
rounded up and left of it down, so a column at an odd distance has another number than its mirror
image, and only at even distances the side does not matter (`Strand.columnIndex_mirror_iff`). By how
much a strand counts more than its mirror image is told by the path as it is drawn, its
`Strand.tilt`; the two say the same exactly if the tilt is zero (`mirror_counts_iff`).

* `Strand.columnTilt`: how much a column counts for more than the one as far on the other side.
* `Trail.down_eq`: the sum along columns of a strand that comes to an end.
* `Meaning.told`: the number that an action strand was read or refused by.
-/

namespace StrandScript

namespace Strand

variable {primes : List Nat} {hookX x : Int} {p : Pos} {c : Cell} {w : Nat}

/-! ## Columns -/

theorem columnIndex_right (hookX : Int) (d : Nat) :
    columnIndex hookX (hookX + d) = (d + 1) / 2 := by
  unfold columnIndex
  rw [Int.fdiv_eq_ediv_of_nonneg _ (by decide)]
  omega

theorem columnIndex_left (hookX : Int) (d : Nat) : columnIndex hookX (hookX - d) = d / 2 := by
  unfold columnIndex
  rw [Int.fdiv_eq_ediv_of_nonneg _ (by decide)]
  omega

/-- The index of a column in the mirror: the hook lies on the other side of it. -/
theorem columnIndex_mirror (w : Nat) (hookX x : Int) :
    columnIndex (w - 1 - hookX) (w - 1 - x) = columnIndex x hookX := by
  unfold columnIndex
  congr 2
  omega

/-- **A column and its mirror image have the same index** only at an even distance from the hook. -/
theorem columnIndex_mirror_iff (w : Nat) (hookX x : Int) :
    columnIndex hookX x = columnIndex (w - 1 - hookX) (w - 1 - x) ↔ (x - hookX) % 2 = 0 := by
  rw [columnIndex_mirror]
  unfold columnIndex
  rw [Int.fdiv_eq_ediv_of_nonneg _ (by decide), Int.fdiv_eq_ediv_of_nonneg _ (by decide)]
  omega

/-- How much column `x` counts for more than the one as far on the other side of the hook: right of
the hook its half distance is rounded up and there down, and left of it the other way round. -/
def columnTilt (primes : List Nat) (hookX x : Int) : Int :=
  let d := (x - hookX).natAbs
  let gap : Int := primes.getD ((d + 1) / 2) 0 - primes.getD (d / 2) 0
  if hookX ≤ x then gap else -gap

theorem number_eq_mirror_add (w : Nat) (primes : List Nat) (hookX x : Int) :
    (primes.getD (columnIndex hookX x) 0 : Int) =
      primes.getD (columnIndex (w - 1 - hookX) (w - 1 - x)) 0 + columnTilt primes hookX x := by
  rw [columnIndex_mirror]
  unfold columnTilt
  by_cases hx : hookX ≤ x
  · obtain ⟨d, rfl⟩ := Int.le.dest hx
    have hleft := columnIndex_left (hookX + d) d
    rw [Int.add_sub_cancel] at hleft
    rw [columnIndex_right, hleft, if_pos hx, add_sub_cancel_left, Int.natAbs_natCast]
    omega
  · obtain ⟨d, hd⟩ := Int.le.dest (Int.le_of_not_le hx)
    obtain rfl : hookX = x + d := hd.symm
    have hleft := columnIndex_left (x + d) d
    rw [Int.add_sub_cancel] at hleft
    rw [columnIndex_right, hleft, if_neg hx, show x - (x + d) = -(d : Int) by omega, Int.natAbs_neg,
      Int.natAbs_natCast]
    omega

/-! ## Paths -/

/-- How much a cell that is entered from `p` counts for more along its column than in the mirror. -/
def runTilt (primes : List Nat) (hookX : Int) (p : Pos) (c : Cell) : Int :=
  if c.symbol = '│' then
    if c.pos = p.step .down then columnTilt primes hookX c.pos.x
    else if c.pos = p.step .up then -columnTilt primes hookX c.pos.x
    else 0
  else 0

/-- The sum along columns of a path drawn from the hook at `p`, if there is any run. -/
def drawnDown? (primes : List Nat) (p : Pos) (cells : List Cell) : Option Int :=
  if ∃ e ∈ stepsFrom p cells, Runs e.1 e.2 then
    some ((stepsFrom p cells).map fun e => downRun primes p.x e.1 e.2).sum
  else none

/-- How much a strand counts for more along columns than its mirror image, by the path as it is
drawn from the hook at `p`. -/
def tilt (primes : List Nat) (p : Pos) (cells : List Cell) : Int :=
  ((stepsFrom p cells).map fun e => runTilt primes p.x e.1 e.2).sum

theorem runTilt_of_not (h : ¬ Runs p c) : runTilt primes hookX p c = 0 := by
  unfold runTilt
  unfold Runs RunsDown at h
  grind

theorem stepsFrom_mirror (w : Nat) (p : Pos) (cells : List Cell) :
    stepsFrom (p.mirror w) (cells.map (Cell.mirror w)) =
      (stepsFrom p cells).map fun e => (e.1.mirror w, e.2.mirror w) := by
  induction cells generalizing p with
  | nil => rfl
  | cons c cells ih =>
    rw [List.map_cons, stepsFrom, stepsFrom, List.map_cons]
    exact congrArg _ (ih c.pos)

end Strand

theorem Pos.mirror_inj {w : Nat} {p q : Pos} : p.mirror w = q.mirror w ↔ p = q := by
  obtain ⟨px, py⟩ := p
  obtain ⟨qx, qy⟩ := q
  simp only [mirror, Pos.mk.injEq]
  omega

/-- A cell lies next to a place as it does in the mirror. -/
theorem Cell.next_mirror {w : Nat} {p : Pos} {c : Cell} (d : Dir) :
    (c.mirror w).pos = (p.mirror w).step d ↔ c.pos = p.step d.mirror := by
  have hd : d.mirror.mirror = d := by cases d <;> rfl
  have hstep := Pos.step_mirror w p d.mirror
  rw [hd] at hstep
  rw [hstep]
  exact Pos.mirror_inj

theorem Cell.symbol_mirror {w : Nat} {c : Cell} {s : Char} (hs : Sign.mirrorChar s = s) :
    (c.mirror w).symbol = s ↔ c.symbol = s := by
  rw [Cell.mirror]
  nth_rewrite 1 [← hs]
  exact Sign.mirrorChar_inj

namespace Strand

variable {primes : List Nat} {hookX : Int} {p : Pos} {c : Cell} {w : Nat}

theorem runs_mirror : Runs (p.mirror w) (c.mirror w) ↔ Runs p c := by
  unfold Runs RunsAcross RunsDown
  rw [Cell.symbol_mirror (s := '─') rfl, Cell.symbol_mirror (s := '│') rfl]
  simp only [Cell.next_mirror, Dir.mirror]
  tauto

/-- **What a cell counts along its column**, and what it counts in the mirror. -/
theorem downRun_eq_mirror_add (w : Nat) (primes : List Nat) (hookX : Int) (p : Pos) (c : Cell) :
    downRun primes hookX p c =
      downRun primes (w - 1 - hookX) (p.mirror w) (c.mirror w) + runTilt primes hookX p c := by
  have hnumber := number_eq_mirror_add w primes hookX c.pos.x
  have hx : (c.mirror w).pos.x = w - 1 - c.pos.x := rfl
  unfold downRun runTilt
  rw [hx]
  simp only [Cell.symbol_mirror (s := '│') rfl, Cell.next_mirror, Dir.mirror]
  split_ifs <;> omega

end Strand

/-! ## Sums along columns -/

/-- The trail of the strand from a hook. -/
def Hook.trail (limit : Nat) (primes : List Nat) (g : Grid) (h : Hook) : Trail :=
  Strand.trail g primes h.pos.x limit h.pos h.dir .none

theorem Hook.char?_mirror {g : Grid} {w : Nat} (hg : g.Rectangular w) {h : Hook} {c : Char}
    (hc : g.char? h.pos = some c) : g.mirror.char? (h.mirror w).pos = some (Sign.mirrorChar c) := by
  rw [Hook.mirror, Grid.char?_mirror hg, hc, Option.map_some]

theorem Hook.column_mirror {w : Nat} {h : Hook} (hx : 0 ≤ h.pos.x ∧ h.pos.x < w) :
    0 ≤ (h.mirror w).pos.x ∧ (h.mirror w).pos.x < w := by
  simp only [Hook.mirror, Pos.mirror]
  omega

theorem Hook.ofHook_eq {g : Grid} {w : Nat} (hg : g.Rectangular w) {h : Hook} {c : Char}
    (hc : g.char? h.pos = some c) (limit : Nat) (primes : List Nat) :
    Strand.ofHook limit primes g h = (h.trail limit primes g).outcome.bind fun r =>
      (Meaning.ofStop h.kind r.1 r.2).map (Strand.mk h (h.trail limit primes g).cells) := by
  unfold Strand.ofHook
  rw [Strand.walk_eq_result hg hc]
  show (h.trail limit primes g).result.bind _ = _
  unfold Trail.result
  cases (h.trail limit primes g).outcome with
  | error f => rfl
  | ok r =>
    show Except.bind (Meaning.ofStop h.kind r.1 r.2) _ = Except.map _ _
    cases Meaning.ofStop h.kind r.1 r.2 <;> rfl

theorem Trail.Mirrors.cells_eq {w : Nat} {t t' : Trail} (h : Mirrors w t t') :
    t'.cells = t.cells.map (Cell.mirror w) := by
  cases h <;> rfl

/-- A trail comes to its end in the mirror too. -/
theorem Trail.Mirrors.ends_of_ok {w : Nat} {t t' : Trail} (h : Mirrors w t t') {sums : Sums}
    {stop : Stop} (hend : t.outcome = .ok (sums, stop)) :
    ∃ sums', t'.outcome = .ok (sums', stop.mirror w) := by
  cases h with
  | fails => cases hend
  | ends => cases hend; exact ⟨_, rfl⟩

/-- **The sum along columns** of a strand that comes to an end is that of the path as it is
drawn. -/
theorem Trail.down_eq {g : Grid} {w : Nat} (hg : g.Rectangular w) {h : Hook} {c : Char}
    (hc : g.char? h.pos = some c) {limit : Nat} {primes : List Nat} {sums : Sums} {stop : Stop}
    (hend : (h.trail limit primes g).outcome = .ok (sums, stop)) :
    sums.down = Strand.drawnDown? primes h.pos (h.trail limit primes g).cells := by
  have hwalk : Strand.walk g primes h.pos.x limit h.pos h.dir .none =
      .ok ((h.trail limit primes g).cells, sums, stop) := by
    rw [Strand.walk_eq_result hg hc]
    show (h.trail limit primes g).result = _
    rw [Trail.result, hend]
    rfl
  have hsums := (Grid.walks_of_walk hg hc hwalk).sums_eq.2
  rw [Sums.foldl_count] at hsums
  rw [hsums, Strand.drawnDown?]
  split
  · exact congrArg some (Int.zero_add _)
  · rfl

/-- Without a run there is no tilt. -/
theorem Strand.tilt_of_not {primes : List Nat} {p : Pos} {cells : List Cell}
    (h : ¬ ∃ e ∈ stepsFrom p cells, Runs e.1 e.2) : tilt primes p cells = 0 := by
  refine List.sum_eq_zero (List.forall_mem_map.mpr fun e he => ?_)
  exact runTilt_of_not fun hruns => h ⟨e, he, hruns⟩

/-- **The sum along columns of a path in the mirror** is less by the tilt. -/
theorem Strand.drawnDown?_eq_mirror_add (w : Nat) (primes : List Nat) (p : Pos)
    (cells : List Cell) :
    drawnDown? primes p cells =
      (drawnDown? primes (p.mirror w) (cells.map (Cell.mirror w))).map
        (· + tilt primes p cells) := by
  have hruns : (∃ e ∈ stepsFrom (p.mirror w) (cells.map (Cell.mirror w)), Runs e.1 e.2) ↔
      ∃ e ∈ stepsFrom p cells, Runs e.1 e.2 := by
    rw [stepsFrom_mirror]
    constructor
    · rintro ⟨_, hmem, hrun⟩
      obtain ⟨e, he, rfl⟩ := List.mem_map.mp hmem
      exact ⟨e, he, runs_mirror.mp hrun⟩
    · rintro ⟨e, he, hrun⟩
      exact ⟨_, List.mem_map_of_mem he, runs_mirror.mpr hrun⟩
  unfold drawnDown?
  by_cases hrun : ∃ e ∈ stepsFrom p cells, Runs e.1 e.2
  · rw [if_pos hrun, if_pos (hruns.mpr hrun), Option.map_some, Option.some_inj, stepsFrom_mirror,
      List.map_map, tilt, ← List.sum_map_add]
    apply congrArg List.sum
    apply List.map_congr_left
    intro e _
    exact downRun_eq_mirror_add w primes p.x e.1 e.2
  · rw [if_neg hrun, if_neg (mt hruns.mp hrun), Option.map_none]

theorem Strand.drawnDown?_mirror_iff (w : Nat) (primes : List Nat) (p : Pos) (cells : List Cell) :
    drawnDown? primes (p.mirror w) (cells.map (Cell.mirror w)) = drawnDown? primes p cells ↔
      tilt primes p cells = 0 := by
  rw [drawnDown?_eq_mirror_add w primes p cells]
  cases hdown : drawnDown? primes (p.mirror w) (cells.map (Cell.mirror w)) with
  | some n =>
    rw [Option.map_some, Option.some_inj]
    omega
  | none =>
    refine iff_of_true rfl (tilt_of_not fun hrun => ?_)
    have hsum := drawnDown?_eq_mirror_add w primes p cells
    rw [hdown, drawnDown?, if_pos hrun] at hsum
    cases hsum

/-! ## What actions say in the mirror -/

namespace Meaning

/-- The number that an action strand was read by, or refused by if it is the number of no
command. -/
def told : Except Fault Meaning → Option Int
  | .ok (.act n _ _) => some n
  | .error (.missingCommand n) => n
  | .error (.complaint (.noCommand n)) => n
  | _ => none

theorem told_ofStop (sums : Sums) (stop : Stop) : told (ofStop .action sums stop) = sums.down := by
  simp only [ofStop]
  split
  · rename_i n command hn hcommand
    rw [hn]
    split
    · rfl
    · split <;> rfl
  · split <;> rfl

theorem told_mirror (w : Nat) (r : Except Fault Meaning) :
    told ((r.map (Meaning.mirror w)).mapError (Fault.mirror w)) = told r := by
  cases r with
  | ok m => cases m <;> rfl
  | error f =>
    cases f with
    | complaint k => cases k <;> rfl
    | _ => rfl

/-- **The end of an action strand says the same in the mirror** exactly if the number is the
same. -/
theorem ofStop_action_mirror_iff (w : Nat) (sums sums' : Sums) (stop : Stop) :
    ofStop .action sums' (stop.mirror w) =
        ((ofStop .action sums stop).map (Meaning.mirror w)).mapError (Fault.mirror w) ↔
      sums'.down = sums.down := by
  constructor
  · intro heq
    have htold := congrArg told heq
    rwa [told_mirror, told_ofStop, told_ofStop] at htold
  · intro hdown
    have hmark : (stop.mirror w).sign.marksAgainst (stop.mirror w).entry =
        stop.sign.marksAgainst stop.entry := Sign.marksAgainst_mirror _ _
    have hside : (stop.mirror w).exit.any (·.isHorizontal) = stop.exit.any (·.isHorizontal) := by
      cases hexit : stop.exit with
      | none => simp [Stop.mirror, hexit]
      | some e => cases e <;> simp [Stop.mirror, hexit, Dir.mirror, Dir.isHorizontal]
    simp only [ofStop, hmark, hside, hdown]
    cases sums.down with
    | none => cases stop.sign.marksAgainst stop.entry <;> rfl
    | some n =>
      rw [Option.bind_some]
      cases Command.ofNumber? n with
      | none => cases stop.sign.marksAgainst stop.entry <;> rfl
      | some command =>
        cases stop.sign.marksAgainst stop.entry with
        | true => rfl
        | false => cases stop.exit.any (·.isHorizontal) <;> rfl

end Meaning

/-- Two strands with mirrored hooks and cells are mirror images if they say the same in the
mirror. -/
theorem Strand.mk_mirror_iff (w : Nat) (h : Hook) (cells : List Cell)
    (r r' : Except Fault Meaning) :
    r'.map (Strand.mk (h.mirror w) (cells.map (Cell.mirror w))) =
        ((r.map (Strand.mk h cells)).map (Strand.mirror w)).mapError (Fault.mirror w) ↔
      r' = (r.map (Meaning.mirror w)).mapError (Fault.mirror w) := by
  cases r <;> cases r' <;> simp [Except.map, Except.mapError, Strand.mirror]

/-- **An action strand and its mirror image say the same** exactly if the strand fails on its way or
has no tilt. -/
theorem Strand.ofHook_action_mirror_iff {g : Grid} {w : Nat} {primes : List Nat}
    (hg : g.Rectangular w) (hlen : g.length ≤ primes.length) (hw : w ≤ primes.length) {h : Hook}
    (hkind : h.kind = .action) {c : Char} (hc : g.char? h.pos = some c) (limit : Nat) :
    Trail.Mirrors w (h.trail limit primes g) ((h.mirror w).trail limit primes g.mirror) ∧
    (ofHook limit primes g.mirror (h.mirror w) =
        ((ofHook limit primes g h).map (Strand.mirror w)).mapError (Fault.mirror w) ↔
      ((h.trail limit primes g).outcome.isOk = true →
        tilt primes h.pos (h.trail limit primes g).cells = 0)) := by
  have hc' := Hook.char?_mirror hg hc
  obtain ⟨hx, hxw, -, -⟩ := (Grid.isSome_char? hg h.pos).mp (by rw [hc]; rfl)
  have htrail : Trail.Mirrors w (h.trail limit primes g)
      ((h.mirror w).trail limit primes g.mirror) :=
    trail_mirror hg hlen hw ⟨hx, hxw⟩ (Hook.column_mirror ⟨hx, hxw⟩) rfl limit h.pos h.dir
  refine ⟨htrail, ?_⟩
  rw [Hook.ofHook_eq hg hc, Hook.ofHook_eq (Grid.rectangular_mirror hg) hc']
  generalize ht : h.trail limit primes g = t at htrail ⊢
  generalize ht' : (h.mirror w).trail limit primes g.mirror = t' at htrail ⊢
  cases htrail with
  | fails => exact iff_of_true rfl fun hok => by cases hok
  | @ends cells sums sums' stop =>
    have hdown := Trail.down_eq hg hc (congrArg Trail.outcome ht)
    have hdown' := Trail.down_eq (Grid.rectangular_mirror hg) hc' (congrArg Trail.outcome ht')
    rw [ht] at hdown
    rw [ht'] at hdown'
    have hiff := Meaning.ofStop_action_mirror_iff w sums sums' stop
    rw [hdown, hdown', show (h.mirror w).pos = h.pos.mirror w from rfl, drawnDown?_mirror_iff,
      ← mk_mirror_iff w h cells] at hiff
    have hkind' : (h.mirror w).kind = .action := hkind
    simp only [Except.bind, hkind, hkind', hiff, Except.isOk, Except.toBool, true_imp_iff]

/-! ## Glyphs -/

theorem Primes.number_inj {primes : List Nat} (hnodup : primes.Nodup) {i j : Nat}
    (hi : i < primes.length) (hj : j < primes.length) :
    Primes.number primes i = Primes.number primes j ↔ i = j := by
  unfold Primes.number
  rw [List.getElem?_eq_getElem hi, List.getElem?_eq_getElem hj]
  simp only [Except.ok.injEq, Nat.cast_inj]
  exact hnodup.getElem_inj_iff

/-- **When the mirror image of an action strand says the same.** Let a rectangular glyph be one of
some grids, and take the table of primes for them. A hook of the glyph that begins an action strand
sideways has its mirror image among the hooks of the mirror image, and the strand from there visits
the cells in the mirror. But a column has the same number on both sides of the hook only at an even
distance, and a strand that comes to an end sums up to more than its mirror image by its tilt. So
the two say the same exactly if the strand fails on its way or its tilt is zero. -/
theorem mirror_counts_iff (gs : List Grid) (primes : List Nat)
    (hprimes : Primes.ofGrids gs = .ok primes) (g : Grid) (hmem : g ∈ gs) (w : Nat)
    (hg : g.Rectangular w) (hooks : List Hook) (hhooks : g.pad.hooks = .ok hooks) (h : Hook)
    (hh : h ∈ hooks) (hkind : h.kind = .action) (hdir : h.dir.isHorizontal = true) (limit : Nat) :
    Primes.ofGrids (gs.map Grid.mirror) = .ok primes ∧
    (∃ hooks', g.mirror.pad.hooks = .ok hooks' ∧ h.mirror w ∈ hooks') ∧
    ((h.mirror w).trail limit primes g.mirror.pad).cells =
      (h.trail limit primes g.pad).cells.map (Cell.mirror w) ∧
    (∀ x : Int, 0 ≤ x → x < w →
      (Primes.number primes (Strand.columnIndex h.pos.x x) =
          Primes.number primes (Strand.columnIndex (h.mirror w).pos.x (w - 1 - x)) ↔
        (x - h.pos.x) % 2 = 0)) ∧
    (∀ sums stop, (h.trail limit primes g.pad).outcome = .ok (sums, stop) →
      ∃ sums', ((h.mirror w).trail limit primes g.mirror.pad).outcome = .ok (sums', stop.mirror w) ∧
        sums.down =
          sums'.down.map (· + Strand.tilt primes h.pos (h.trail limit primes g.pad).cells)) ∧
    (Strand.ofHook limit primes g.mirror.pad (h.mirror w) =
        ((Strand.ofHook limit primes g.pad h).map (Strand.mirror w)).mapError (Fault.mirror w) ↔
      ((h.trail limit primes g.pad).outcome.isOk = true →
        Strand.tilt primes h.pos (h.trail limit primes g.pad).cells = 0)) := by
  rw [Grid.pad_of_rectangular hg] at hhooks ⊢
  rw [Grid.pad_of_rectangular (Grid.rectangular_mirror hg)]
  obtain ⟨hne, hlen, hhead⟩ := Primes.sides_le_length hprimes hmem
  have hw : w ≤ primes.length := by
    cases g with
    | nil => exact absurd rfl hne
    | cons r g => exact (hg r List.mem_cons_self).symm.trans_le hhead
  obtain ⟨hooks', hhooks'⟩ := Grid.exists_hooks (Grid.rectangular_mirror hg)
  obtain ⟨c, hc, -⟩ := Option.bind_eq_some_iff.mp
    (Grid.isHook_of_hooksAt hg (fun _ ha => Grid.mem_cells.mp ha) hhooks h hh).sign
  obtain ⟨hx, hxw, -, -⟩ := (Grid.isSome_char? hg h.pos).mp (by rw [hc]; rfl)
  obtain ⟨htrail, hiff⟩ := Strand.ofHook_action_mirror_iff hg hlen hw hkind hc limit
  refine ⟨(Primes.ofGrids_mirror gs).trans hprimes,
    ⟨hooks', hhooks', Grid.mem_hooks_mirror hg hhooks hhooks' hh hdir⟩, htrail.cells_eq, ?_, ?_,
      hiff⟩
  · intro x h0 hlt
    have hindex := Strand.columnIndex_lt hw ⟨hx, hxw⟩ ⟨h0, hlt⟩
    have hindex' : Strand.columnIndex (h.mirror w).pos.x (w - 1 - x) < primes.length :=
      Strand.columnIndex_lt hw (Hook.column_mirror ⟨hx, hxw⟩) (by omega)
    rw [Primes.number_inj (Primes.ofGrids_nodup hprimes) hindex hindex']
    exact Strand.columnIndex_mirror_iff w h.pos.x x
  · intro sums stop hend
    obtain ⟨sums', hend'⟩ := htrail.ends_of_ok hend
    refine ⟨sums', hend', ?_⟩
    rw [Trail.down_eq hg hc hend,
      Trail.down_eq (Grid.rectangular_mirror hg) (Hook.char?_mirror hg hc) hend', htrail.cells_eq]
    exact Strand.drawnDown?_eq_mirror_add w primes h.pos _

/-- An action strand down the column next to its hook. -/
def nearStrand : Strand :=
  ⟨⟨.downRight, ⟨0, 0⟩, .right, .action⟩, [⟨'╮', ⟨1, 0⟩, some .down⟩, ⟨'│', ⟨1, 1⟩, none⟩],
    .act 2 .multiply .element⟩

/-- An action strand down the column after that. -/
def farStrand : Strand :=
  ⟨⟨.downRight, ⟨0, 0⟩, .right, .action⟩,
    [⟨'─', ⟨1, 0⟩, some .right⟩, ⟨'╮', ⟨2, 0⟩, some .down⟩, ⟨'│', ⟨2, 1⟩, none⟩],
      .act 2 .multiply .element⟩

/-- Both strands count `2`. The first has a tilt, and its mirror image says something else; the
second has none, and is read again in the mirror. -/
theorem mirror_counts_iff_near_far :
    (Strand.ofHook 9 [1, 2] (Grid.pad ["╭╮".toList, " │".toList]) nearStrand.hook = .ok nearStrand ∧
      Strand.tilt [1, 2] nearStrand.pos nearStrand.cells = 1 ∧
      Strand.ofHook 9 [1, 2] (Grid.pad (Grid.mirror ["╭╮".toList, " │".toList]))
        (nearStrand.hook.mirror 2) ≠ .ok (nearStrand.mirror 2)) ∧
    Strand.ofHook 9 [1, 2, 3] (Grid.pad ["╭─╮".toList, "  │".toList]) farStrand.hook =
      .ok farStrand ∧
      Strand.tilt [1, 2, 3] farStrand.pos farStrand.cells = 0 ∧
      Strand.ofHook 9 [1, 2, 3] (Grid.pad (Grid.mirror ["╭─╮".toList, "  │".toList]))
        (farStrand.hook.mirror 3) = .ok (farStrand.mirror 3) := by
  have hnear : Strand.ofHook 9 [1, 2] (Grid.pad ["╭╮".toList, " │".toList]) nearStrand.hook =
      .ok nearStrand := by decide +kernel
  have hfar : Strand.ofHook 9 [1, 2, 3] (Grid.pad ["╭─╮".toList, "  │".toList]) farStrand.hook =
      .ok farStrand := by decide +kernel
  obtain ⟨-, -, -, -, -, hnear'⟩ := mirror_counts_iff [["╭╮".toList, " │".toList]] [1, 2]
    (by decide +kernel) ["╭╮".toList, " │".toList] List.mem_cons_self 2 (by simp [Grid.Rectangular])
    [nearStrand.hook] (by decide +kernel) nearStrand.hook List.mem_cons_self rfl rfl 9
  obtain ⟨-, -, -, -, -, hfar'⟩ := mirror_counts_iff [["╭─╮".toList, "  │".toList]] [1, 2, 3]
    (by decide +kernel) ["╭─╮".toList, "  │".toList] List.mem_cons_self 3
    (by simp [Grid.Rectangular])
    [farStrand.hook] (by decide +kernel) farStrand.hook List.mem_cons_self rfl rfl 9
  rw [hnear] at hnear'
  rw [hfar] at hfar'
  refine ⟨⟨hnear, by decide +kernel, fun hsame => ?_⟩, hfar, by decide +kernel, ?_⟩
  · have hzero := hnear'.mp hsame (by decide +kernel)
    exact absurd hzero (by decide +kernel)
  · exact hfar'.mpr fun _ => by decide +kernel

/-- A glyph that is its own mirror image, with an action strand on either side. -/
def sidesDrawing : Grid := ["╭╮  ╭╮".toList, " │  │ ".toList]

/-- The two strands are mirror images of each other, but the left one counts the column next to its
hook as the second and the right one as the first, so they stand for different commands. -/
theorem mirror_number_differs : sidesDrawing.mirror = sidesDrawing ∧
    Primes.ofGrids [sidesDrawing] = .ok [1, 2, 3, 5, 7, 11] ∧
    ∃ s s', sidesDrawing.strands nestingLimit [1, 2, 3, 5, 7, 11] = .ok [s, s'] ∧
      s'.hook = s.hook.mirror 6 ∧ s'.cells = s.cells.map (Cell.mirror 6) ∧
      s.meaning = .act 2 .multiply .element ∧ s'.meaning = .act 1 .insert .element := by
  refine ⟨by decide +kernel, by decide +kernel,
    ⟨⟨.downRight, ⟨0, 0⟩, .right, .action⟩, [⟨'╮', ⟨1, 0⟩, some .down⟩, ⟨'│', ⟨1, 1⟩, none⟩],
      .act 2 .multiply .element⟩,
    ⟨⟨.downLeft, ⟨5, 0⟩, .left, .action⟩, [⟨'╭', ⟨4, 0⟩, some .down⟩, ⟨'│', ⟨4, 1⟩, none⟩],
      .act 1 .insert .element⟩, by decide +kernel, ?_⟩
  decide

end StrandScript
