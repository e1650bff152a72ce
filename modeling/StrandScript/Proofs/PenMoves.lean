import Mathlib.Algebra.Field.Rat
import Mathlib.Algebra.Group.Prod
import Mathlib.Tactic.Ring
import StrandScript.Drawing.Path
import StrandScript.Proofs.Outcome

/-!
# How a pen moves

Over the rational numbers lengths are exact, and a path can be followed from point to point. What is
drawn in a cell that a strand passes leads from the middle of the side where the strand comes in to
the middle of the side where it goes out, for every sign, curved or sharp, and for curves of every
size (`Pen.moves_piece`). What is drawn of a hook leads from the upper left corner of its cell to
the middle of the side where the strand goes out, except for a closing sign, which is drawn along
the left side of its cell (`Pen.moves_hook`).

* `PathCommand.follow`, `PathCommand.followAll`: where the pen stands after a command, and after a
  path.
* `Pen.Moves`: a path that is drawn and moves the pen by a given distance.
* `Pen.halfStep`: half a cell in a direction.
-/

namespace StrandScript

instance : Measure ℚ where
  ofInt n := n
  half := 1 / 2
  minusHalf := -1 / 2
  unit := 1
  add a b := .ok (a + b)
  sub a b := .ok (a - b)
  mul a b := .ok (a * b)
  div a b := .ok (a / b)
  isUnit a := decide (a = 1)

namespace PathCommand

/-- Where the pen stands after a command. -/
def follow (p : ℚ × ℚ) : PathCommand ℚ → ℚ × ℚ
  | .moveTo x y => (x, y)
  | .moveBy x y => p + (x, y)
  | .across x => p + (x, 0)
  | .down y => p + (0, y)
  | .curve _ _ x y => p + (x, y)

/-- Where the pen stands after a path. -/
def followAll (p : ℚ × ℚ) (cs : List (PathCommand ℚ)) : ℚ × ℚ := cs.foldl follow p

@[simp] theorem followAll_nil (p : ℚ × ℚ) : followAll p [] = p := rfl

@[simp] theorem followAll_cons (p : ℚ × ℚ) (c : PathCommand ℚ) (cs : List (PathCommand ℚ)) :
    followAll p (c :: cs) = followAll (c.follow p) cs := rfl

theorem followAll_append (p : ℚ × ℚ) (cs cs' : List (PathCommand ℚ)) :
    followAll p (cs ++ cs') = followAll (followAll p cs) cs' := List.foldl_append

end PathCommand

namespace Dir

/-- How many columns a step goes to the right. -/
def across : Dir → Int
  | right => 1
  | left => -1
  | up | down => 0

/-- How many rows a step goes down. -/
def below : Dir → Int
  | down => 1
  | up => -1
  | left | right => 0

end Dir

namespace Pen

open PathCommand StrandScript.Measure

variable (pen : Pen ℚ)

/-- Half a cell in a direction. -/
def halfStep (d : Dir) : ℚ × ℚ := (pen.width * d.across / 2, pen.height * d.below / 2)

/-- The middle of a cell, from its upper left corner. -/
def middle : ℚ × ℚ := (pen.width / 2, pen.height / 2)

/-- A path is drawn, and moves the pen by `v`. -/
def Moves (x : Except Fault (List (PathCommand ℚ))) (v : ℚ × ℚ) : Prop :=
  ∃ cs, x = .ok cs ∧ ∀ p, followAll p cs = p + v

/-- A command is drawn, and moves the pen by `v`. -/
def MovesBy (x : Except Fault (PathCommand ℚ)) (v : ℚ × ℚ) : Prop :=
  ∃ c, x = .ok c ∧ ∀ p, c.follow p = p + v

variable {pen} {a b : Except Fault (PathCommand ℚ)} {rest : Except Fault (List (PathCommand ℚ))}
  {u v : ℚ × ℚ}

theorem Moves.of_eq (h : Moves rest u) (huv : u = v) : Moves rest v := huv ▸ h

/-! ## Commands one after the other -/

theorem moves_only (ha : MovesBy a u) : Moves (only a) u := by
  obtain ⟨c, rfl, hc⟩ := ha
  exact ⟨[c], rfl, hc⟩

theorem moves_pairOf (ha : MovesBy a u) (hb : MovesBy b v) : Moves (pairOf a b) (u + v) := by
  obtain ⟨c, rfl, hc⟩ := ha
  obtain ⟨c', rfl, hc'⟩ := hb
  refine ⟨[c, c'], rfl, fun p => ?_⟩
  rw [followAll_cons, followAll_cons, hc, hc', followAll_nil, add_assoc]

theorem movesBy_move (pen : Pen ℚ) (x y : Share) :
    MovesBy (pen.move x y) (pen.width * share x, pen.height * share y) := ⟨_, rfl, fun _ => rfl⟩

theorem moves_startingAt (h : Moves rest v) (pen : Pen ℚ) (x y : Share) :
    Moves (pen.startingAt true x y rest) ((pen.width * share x, pen.height * share y) + v) := by
  obtain ⟨cs, rfl, hcs⟩ := h
  obtain ⟨c, hc, hmove⟩ := movesBy_move pen x y
  refine ⟨c :: cs, ?_, fun p => ?_⟩
  · unfold startingAt
    rw [hc]
    rfl
  · rw [followAll_cons, hmove, hcs, add_assoc]

/-! ## Straight lines -/

@[simp] theorem halfStep_up : pen.halfStep .up = (0, -(pen.height / 2)) := by
  simp [halfStep, Dir.across, Dir.below, neg_div]

@[simp] theorem halfStep_down : pen.halfStep .down = (0, pen.height / 2) := by
  simp [halfStep, Dir.across, Dir.below]

@[simp] theorem halfStep_left : pen.halfStep .left = (-(pen.width / 2), 0) := by
  simp [halfStep, Dir.across, Dir.below, neg_div]

@[simp] theorem halfStep_right : pen.halfStep .right = (pen.width / 2, 0) := by
  simp [halfStep, Dir.across, Dir.below]

theorem halfStep_opposite (pen : Pen ℚ) (d : Dir) : pen.halfStep d.opposite = -pen.halfStep d := by
  cases d <;> simp [Dir.opposite]

theorem movesBy_halfAcross (pen : Pen ℚ) (forward : Bool) :
    MovesBy (pen.halfAcross forward) (pen.halfStep (if forward then .right else .left)) := by
  cases forward with
  | true => exact ⟨_, rfl, fun p => by simp [follow, ofInt]⟩
  | false => exact ⟨_, rfl, fun p => by simp [follow, ofInt]⟩

theorem movesBy_halfDown (pen : Pen ℚ) (forward : Bool) :
    MovesBy (pen.halfDown forward) (pen.halfStep (if forward then .down else .up)) := by
  cases forward with
  | true => exact ⟨_, rfl, fun p => by simp [follow, ofInt]⟩
  | false => exact ⟨_, rfl, fun p => by simp [follow, ofInt]⟩

theorem movesBy_fullAcross (pen : Pen ℚ) (forward : Bool) :
    MovesBy (pen.fullAcross forward) (pen.halfStep (if forward then .right else .left) +
      pen.halfStep (if forward then .right else .left)) := by
  cases forward with
  | true => exact ⟨_, rfl, fun p => by simp [follow]⟩
  | false => exact ⟨_, rfl, fun p => by simp [follow, ofInt, ← neg_add]⟩

theorem movesBy_fullDown (pen : Pen ℚ) (forward : Bool) :
    MovesBy (pen.fullDown forward) (pen.halfStep (if forward then .down else .up) +
      pen.halfStep (if forward then .down else .up)) := by
  cases forward with
  | true => exact ⟨_, rfl, fun p => by simp [follow]⟩
  | false => exact ⟨_, rfl, fun p => by simp [follow, ofInt, ← neg_add]⟩

/-! ## Curves -/

theorem movesBy_stretch (pen : Pen ℚ) (d : Dir) (size : ℚ) :
    MovesBy (pen.stretch d size) (size * (pen.halfStep d).1, size * (pen.halfStep d).2) := by
  cases d with
  | up | down | left | right =>
    exact ⟨_, rfl, fun p => by simp [follow, ofInt, mul_div_assoc]⟩

theorem bend_of_eq_one (h : pen.curve = 1) (cx cy x y : Int) (d e : Dir) :
    pen.bend cx cy x y d e = .ok [.curve (pen.width * cx / 2) (pen.height * cy / 2)
      (pen.width * x / 2) (pen.height * y / 2)] := by
  have hunit : isUnit pen.curve = true := decide_eq_true h
  unfold bend
  rw [if_pos hunit]
  rfl

theorem bend_of_ne_one (h : pen.curve ≠ 1) {d e : Dir} {before after : PathCommand ℚ}
    (hd : pen.stretch d (1 - pen.curve) = .ok before)
    (he : pen.stretch e (1 - pen.curve) = .ok after) (cx cy x y : Int) :
    pen.bend cx cy x y d e = .ok [before,
      .curve (pen.width * pen.curve * cx / 2) (pen.height * pen.curve * cy / 2)
        (pen.width * pen.curve * x / 2) (pen.height * pen.curve * y / 2), after] := by
  have hunit : ¬ isUnit pen.curve = true := fun hc => h (of_decide_eq_true hc)
  unfold bend
  rw [if_neg hunit]
  change (pen.stretch d (1 - pen.curve) >>= _) = _
  rw [hd]
  change (pen.stretch e (1 - pen.curve) >>= _) = _
  rw [he]
  rfl

/-- **A curve leads from the middle of one side to the middle of the other**, with a stretch before
and after it or, if it fills its quarter of the cell, without. -/
theorem moves_bend (pen : Pen ℚ) (cx cy : Int) (d e : Dir) :
    Moves (pen.bend cx cy (d.across + e.across) (d.below + e.below) d e)
      (pen.halfStep d + pen.halfStep e) := by
  by_cases hunit : pen.curve = 1
  · refine ⟨_, bend_of_eq_one hunit .., fun p => ?_⟩
    simp only [followAll_cons, followAll_nil, follow, halfStep, Prod.mk_add_mk]
    push_cast
    congr 2 <;> ring
  · obtain ⟨before, hbefore, hd⟩ := movesBy_stretch pen d (1 - pen.curve)
    obtain ⟨after, hafter, he⟩ := movesBy_stretch pen e (1 - pen.curve)
    refine ⟨_, bend_of_ne_one hunit hbefore hafter .., fun p => ?_⟩
    rw [followAll_cons, followAll_cons, followAll_cons, followAll_nil, hd, he]
    simp only [follow, halfStep, add_assoc, Prod.mk_add_mk]
    push_cast
    congr 2 <;> ring

/-! ## What is drawn in a cell -/

/-- **What is drawn of a sign that a strand passes** leads from the middle of the side where the
strand comes in to the middle of the side where it goes out. -/
theorem moves_piece (pen : Pen ℚ) {s : Sign} {d e : Dir} (h : s.through d = some e) (sharp : Bool) :
    Moves (pen.piece ⟨s, sharp⟩ e false) (pen.halfStep d + pen.halfStep e) := by
  cases s with
  | opening | closing | stubLeft | stubRight => cases d <;> cases h
  | vertical =>
    cases d <;> cases h
    · exact moves_only (movesBy_fullDown pen false)
    · exact moves_only (movesBy_fullDown pen true)
  | horizontal =>
    cases d <;> cases h
    · exact moves_only (movesBy_fullAcross pen false)
    · exact moves_only (movesBy_fullAcross pen true)
  | downLeft =>
    cases d <;> cases h <;> cases sharp
    · exact moves_bend pen 0 (-1) .up .left
    -- The sharp form goes across before it goes up, and still ends in the middle of the left side.
    · refine (moves_pairOf (movesBy_halfAcross pen false) (movesBy_halfDown pen false)).of_eq ?_
      exact add_comm ..
    · exact moves_bend pen 1 0 .right .down
    · exact moves_pairOf (movesBy_halfAcross pen true) (movesBy_halfDown pen true)
  | downRight =>
    cases d <;> cases h <;> cases sharp
    · exact moves_bend pen 0 (-1) .up .right
    · exact moves_pairOf (movesBy_halfDown pen false) (movesBy_halfAcross pen true)
    · exact moves_bend pen (-1) 0 .left .down
    · exact moves_pairOf (movesBy_halfAcross pen false) (movesBy_halfDown pen true)
  | upRight =>
    cases d <;> cases h <;> cases sharp
    · exact moves_bend pen 0 1 .down .right
    · exact moves_pairOf (movesBy_halfDown pen true) (movesBy_halfAcross pen true)
    · exact moves_bend pen (-1) 0 .left .up
    · exact moves_pairOf (movesBy_halfAcross pen false) (movesBy_halfDown pen false)
  | upLeft =>
    cases d <;> cases h <;> cases sharp
    · exact moves_bend pen 0 1 .down .left
    · exact moves_pairOf (movesBy_halfDown pen true) (movesBy_halfAcross pen false)
    · exact moves_bend pen 1 0 .right .up
    · exact moves_pairOf (movesBy_halfAcross pen true) (movesBy_halfDown pen false)

/-! ## What is drawn of a hook -/

@[simp] theorem mul_share_none (x : ℚ) : x * share .none = 0 := mul_zero x

@[simp] theorem mul_share_half (x : ℚ) : x * share .half = x / 2 := mul_one_div x 2

@[simp] theorem mul_share_full (x : ℚ) : x * share .full = x := mul_one x

theorem add_neg_half (x : ℚ) : x + -(x / 2) = x / 2 := by
  rw [← sub_eq_add_neg, sub_half]

/-- A curved hook is drawn as a sign that a strand passes, from the middle of its other side. -/
theorem moves_start {d e : Dir} {x y : Share} (h : Moves rest (pen.halfStep d + pen.halfStep e))
    (hxy : (pen.width * share x, pen.height * share y) + pen.halfStep d = pen.middle) :
    Moves (pen.startingAt true x y rest) (pen.middle + pen.halfStep e) := by
  rw [← hxy, add_assoc]
  exact moves_startingAt h pen x y

theorem moves_curvedHook (pen : Pen ℚ) {s : Sign} {e : Dir} (h : (s.startKind? e).isSome)
    (hs : s ≠ .closing) :
    Moves (pen.piece (Figure.ofSign s) e true) (pen.middle + pen.halfStep e) := by
  cases s with
  | closing => exact absurd rfl hs
  | opening | vertical | horizontal | stubLeft | stubRight => cases e <;> cases h
  | downLeft =>
    cases e <;> cases h
    · exact moves_start (moves_bend pen 1 0 .right .down) (by simp [middle])
    · exact moves_start (moves_bend pen 0 (-1) .up .left) (by simp [middle, add_neg_half])
  | downRight =>
    cases e <;> cases h
    · exact moves_start (moves_bend pen (-1) 0 .left .down) (by simp [middle, add_neg_half])
    · exact moves_start (moves_bend pen 0 (-1) .up .right) (by simp [middle, add_neg_half])
  | upRight =>
    cases e <;> cases h
    · exact moves_start (moves_bend pen (-1) 0 .left .up) (by simp [middle, add_neg_half])
    · exact moves_start (moves_bend pen 0 1 .down .right) (by simp [middle])
  | upLeft =>
    cases e <;> cases h
    · exact moves_start (moves_bend pen 1 0 .right .up) (by simp [middle])
    · exact moves_start (moves_bend pen 0 1 .down .left) (by simp [middle])

/-- A closing sign begins its strand without the move across. -/
theorem moves_closingHook (pen : Pen ℚ) :
    Moves (pen.piece (Figure.ofSign .closing) .down true)
      (pen.middle + pen.halfStep .down - (pen.width / 2, 0)) := by
  refine (moves_pairOf (movesBy_move pen .none .half) (movesBy_halfDown pen true)).of_eq ?_
  simp [middle]

/-- How far left of the middle of its side a hook of a kind is drawn. -/
def aside (pen : Pen ℚ) (k : Kind) : ℚ × ℚ := if k = .question then (pen.width / 2, 0) else 0

/-- **What is drawn of a hook** leads from the corner of its cell to the middle of the side where
the strand goes out, unless it begins a question: such a strand goes down along the left side of the
cell. -/
theorem moves_hook (pen : Pen ℚ) {s : Sign} {e : Dir} {k : Kind} (h : s.startKind? e = some k) :
    Moves (pen.piece (Figure.ofSign s) e true) (pen.middle + pen.halfStep e - pen.aside k) := by
  by_cases hs : s = .closing
  · subst hs
    cases e <;> cases h
    exact moves_closingHook pen
  · have hk : k ≠ .question := by
      rintro rfl
      cases s <;> cases e <;> cases h
      exact hs rfl
    rw [aside, if_neg hk, sub_zero]
    exact moves_curvedHook pen (Option.isSome_of_eq_some h) hs

/-! ## What is drawn at all -/

theorem MovesBy.isOk (h : MovesBy a u) : a.isOk = true := by
  obtain ⟨c, rfl, -⟩ := h
  rfl

theorem isOk_only (a : Except Fault (PathCommand ℚ)) : (only a).isOk = a.isOk := by
  cases a <;> rfl

theorem isOk_pairOf (a b : Except Fault (PathCommand ℚ)) :
    (pairOf a b).isOk = (a.isOk && b.isOk) := by
  cases a <;> cases b <;> rfl

theorem isOk_startingAt (pen : Pen ℚ) (start : Bool) (x y : Share)
    (rest : Except Fault (List (PathCommand ℚ))) :
    (pen.startingAt start x y rest).isOk = rest.isOk := by
  cases rest <;> cases start <;> rfl

theorem isOk_bend (pen : Pen ℚ) (cx cy x y : Int) (d e : Dir) :
    (pen.bend cx cy x y d e).isOk = true := by
  by_cases hunit : pen.curve = 1
  · rw [bend_of_eq_one hunit]
    rfl
  · obtain ⟨_, hbefore, -⟩ := movesBy_stretch pen d (1 - pen.curve)
    obtain ⟨_, hafter, -⟩ := movesBy_stretch pen e (1 - pen.curve)
    rw [bend_of_ne_one hunit hbefore hafter]
    rfl

theorem isOk_nothing : (Except.ok [] : Except Fault (List (PathCommand ℚ))).isOk = true := rfl

/-- With exact lengths there is no figure that cannot be drawn. -/
theorem isOk_piece (pen : Pen ℚ) (f : Figure) (d : Dir) (start : Bool) :
    (pen.piece f d start).isOk = true := by
  unfold piece
  split <;> simp only [isOk_startingAt, isOk_bend, isOk_only, isOk_pairOf, isOk_nothing,
    Bool.and_self,
    (movesBy_move pen _ _).isOk, (movesBy_halfAcross pen _).isOk, (movesBy_halfDown pen _).isOk,
    (movesBy_fullAcross pen _).isOk, (movesBy_fullDown pen _).isOk]

end Pen

end StrandScript
