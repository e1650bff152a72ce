import StrandScript.Drawing.Request
import StrandScript.Proofs.Outcome

/-!
# What can be written of a drawing

A drawing that is laid out holds numbers, and of these only whole ones of more than 4300 digits
cannot be written. So a canvas has a text exactly if none of its numbers is that long, and else the
attempt to write it fails in one way only (`Picture.Canvas.text_toldBy`).
-/

namespace StrandScript

/-- The computation succeeds if `b` holds, and else fails with the fault `e`. -/
def Outcome.ToldBy {ε α : Type} (b : Bool) (e : ε) (x : Except ε α) : Prop :=
  (b = true → ∃ a, x = .ok a) ∧ (b = false → x = .error e)

namespace Outcome.ToldBy

variable {ε α β : Type} {b c : Bool} {e : ε}

theorem ok (a : α) : ToldBy true e (.ok a) := ⟨fun _ => ⟨a, rfl⟩, fun h => nomatch h⟩

theorem error : ToldBy false e (.error e : Except ε α) := ⟨fun h => (nomatch h), fun _ => rfl⟩

theorem ite (b : Bool) (a : α) : ToldBy b e (if b then .ok a else .error e) := by
  cases b with
  | true => exact .ok a
  | false => exact .error

theorem bind {x : Except ε α} {f : α → Except ε β} (hx : ToldBy b e x)
    (hf : ∀ a, ToldBy c e (f a)) : ToldBy (b && c) e (x >>= f) := by
  cases b with
  | true =>
    obtain ⟨a, rfl⟩ := hx.1 rfl
    exact hf a
  | false =>
    rw [hx.2 rfl]
    exact .error

/-- What is made of a result in the end does not matter. -/
theorem map {x : Except ε α} (hx : ToldBy b e x) (f : α → β) :
    ToldBy b e (x >>= fun a => pure (f a)) := by
  have := hx.bind fun a => ToldBy.ok (f a)
  rwa [Bool.and_true] at this

theorem mapM {f : α → Except ε β} {p : α → Bool} (hf : ∀ a, ToldBy (p a) e (f a)) (xs : List α) :
    ToldBy (xs.all p) e (xs.mapM f) := by
  induction xs with
  | nil => exact .ok []
  | cons x xs ih =>
    rw [List.mapM_cons, List.all_cons]
    exact (hf x).bind fun _ => ih.map _

end Outcome.ToldBy

open Outcome

/-- Whether a value can be written: a whole number of more than 4300 digits cannot. -/
def Value.writable : Value → Bool
  | .int n => fits n
  | _ => true

theorem Value.text_toldBy (v : Value) : ToldBy v.writable .badValue v.text := by
  cases v with
  | int n =>
    rw [writable, text, intText]
    exact .ite _ _
  | real x => exact .ok _
  | complex re im => exact .ok _
  | empty => exact .ok _

/-- The numbers of a command. -/
def PathCommand.numbers {α : Type} : PathCommand α → List α
  | .moveTo x y | .moveBy x y => [x, y]
  | .across x => [x]
  | .down y => [y]
  | .curve cx cy x y => [cx, cy, x, y]

theorem PathCommand.text_toldBy (c : PathCommand Value) :
    ToldBy (c.numbers.all Value.writable) .badValue c.text := by
  have hnumbers := (ToldBy.mapM Value.text_toldBy c.numbers).map
    fun ts => String.join (ts.map (" " ++ ·))
  cases c with
  | moveTo x y => exact hnumbers.map _
  | moveBy x y => exact hnumbers.map _
  | across x => exact hnumbers.map _
  | down y => exact hnumbers.map _
  | curve cx cy x y => exact hnumbers.map _

/-- Whether an attribute can be written. -/
def Attr.writable : Attr → Bool
  | .number v => v.writable
  | .text _ => true
  | .path cs => cs.all fun c => c.numbers.all Value.writable

theorem Attr.write_toldBy (a : Attr) : ToldBy a.writable .badValue a.write := by
  cases a with
  | number v => exact v.text_toldBy
  | text s => exact .ok s
  | path cs => exact (ToldBy.mapM PathCommand.text_toldBy cs).map _

namespace Picture

theorem attrsText_toldBy (attrs : List (String × Option Attr)) :
    ToldBy (attrs.all fun a => a.2.all Attr.writable) .badValue (attrsText attrs) := by
  induction attrs with
  | nil => exact .ok ""
  | cons a attrs ih =>
    obtain ⟨k, a⟩ := a
    rw [List.all_cons]
    cases a with
    | none => exact ih
    | some a => exact a.write_toldBy.bind fun v => ih.map _

/-- Whether an element can be written. -/
def Element.writable (e : Element) : Bool := e.attrs.all fun a => a.2.all Attr.writable

theorem Element.text_toldBy (e : Element) : ToldBy e.writable .badValue e.text :=
  (attrsText_toldBy e.attrs).map _

/-- Whether a canvas can be written. -/
def Canvas.writable (c : Canvas) : Bool :=
  c.width.writable && c.height.writable && c.elements.all Element.writable

/-- **A canvas has a text exactly if none of its numbers is too long.** -/
theorem Canvas.text_toldBy (c : Canvas) : ToldBy c.writable .badValue c.text := by
  have hhead : ToldBy (c.width.writable && c.height.writable) .badValue
      (attrsText [("style", some (.text c.style)), ("width", some (.number c.width)),
        ("height", some (.number c.height))]) := by
    have := attrsText_toldBy [("style", some (.text c.style)), ("width", some (.number c.width)),
      ("height", some (.number c.height))]
    simpa [Attr.writable] using this
  exact hhead.bind fun _ => (ToldBy.mapM Element.text_toldBy c.elements).map _

end Picture

end StrandScript
