import Mathlib.Data.List.Basic
import StrandScript.Disk
import StrandScript.Proofs.Outcome

/-!
# Places on a disk

A name that can be followed leads to the place that its parts spell out (`Disk.find_concat`),
whatever parts without effect it has. Making the directories of a name changes no file
(`Disk.file?_makeDirs`). It succeeds exactly if nothing else stands where one of them is to be
(`Disk.exists_makeDirs_iff`), and afterwards the directories are those that were there and the ones
that the name leads through (`Disk.withDirs_of_makeDirs`).
-/

namespace StrandScript

namespace Path

variable {p q : Path} {part : String} {parts : List String}

theorem enter_of_not_leads (h : leads part = false) : p.enter part = p := by
  simp [enter, h]

theorem follow_cons (p : Path) (part : String) (rest : List String) :
    p.follow (part :: rest) = (p.enter part).follow rest := rfl

theorem follow_concat (p : Path) (parts : List String) (part : String) :
    p.follow (parts ++ [part]) = (p.follow parts).enter part := by
  simp [follow]

/-- Parts that do not lead on can be left out. -/
theorem follow_filter (p : Path) (parts : List String) :
    p.follow (parts.filter leads) = p.follow parts := by
  induction parts generalizing p with
  | nil => rfl
  | cons part rest ih =>
    cases h : leads part with
    | false => rw [List.filter_cons_of_neg (by simp [h]), ih, follow_cons, enter_of_not_leads h]
    | true => rw [List.filter_cons_of_pos h, follow_cons, ih, follow_cons]

/-- An empty part adds no place to those passed through but the first. -/
theorem mem_trail_filter (h : q ∈ p.trail parts) :
    q = p ∨ q ∈ p.trail (parts.filter (· != "")) := by
  induction parts generalizing p with
  | nil => cases h
  | cons part rest ih =>
    rw [trail, List.mem_cons] at h
    by_cases hpart : part = ""
    · subst hpart
      rw [List.filter_cons_of_neg (by simp)]
      exact h.elim Or.inl ih
    · rw [List.filter_cons_of_pos (by simp [hpart]), trail, List.mem_cons]
      rcases h with h | h
      · exact .inr (.inl h)
      · exact .inr (ih h)

end Path

namespace Disk

variable {d d' : Disk} {p q : Path} {n : Name} {parts : List String}

/-! ## What stands at a place -/

theorem isDir_iff : d.isDir p ↔ d.node? p = some .dir := by
  unfold isDir
  cases d.node? p with
  | none => simp
  | some x => cases x <;> simp

/-- Nothing but a directory stands at a place. -/
def Clear (d : Disk) (p : Path) : Prop := d.file? p = none ∧ d.isDevice p = false

theorem clear_iff : d.Clear p ↔ d.node? p = none ∨ d.node? p = some .dir := by
  unfold Clear file? isDevice
  cases d.node? p with
  | none => simp
  | some x => cases x <;> simp

theorem file?_eq_some {a : ByteArray} : d.file? p = some a ↔ d.node? p = some (.file a) := by
  unfold file?
  cases d.node? p with
  | none => simp
  | some x => cases x <;> simp

theorem lookup_filter_ne {β : Type} (l : List (Path × β)) (h : q ≠ p) :
    (l.filter fun m => m.1 != p).lookup q = l.lookup q := by
  induction l with
  | nil => rfl
  | cons m l ih =>
    by_cases hm : m.1 = p
    · rw [List.filter_cons_of_neg (by simp [hm]), ih, List.lookup_cons,
        beq_false_of_ne (hm ▸ h)]
    · rw [List.filter_cons_of_pos (by simp [hm]), List.lookup_cons, List.lookup_cons, ih]

/-- **Putting something at a place changes what stands there, and nothing else.** -/
theorem node?_put (x : Node) (hp : p ≠ []) (q : Path) :
    (d.put p x).node? q = if q = p then some x else d.node? q := by
  unfold node? put
  split
  · next hq =>
    rw [List.isEmpty_iff] at hq
    rw [if_neg (hq ▸ hp.symm)]
  · split
    · next h =>
      subst h
      -- What stood there is gone, so the look-up comes to the new end of the list.
      have hnone : (d.nodes.filter fun m => m.1 != q).lookup q = none :=
        List.lookup_eq_none_iff.mpr fun m hm => by
          simpa [bne_comm] using (List.mem_filter.mp hm).2
      simp [List.lookup_append, hnone]
    · next h =>
      simp [List.lookup_append, lookup_filter_ne _ h, List.lookup_cons, beq_false_of_ne h]

theorem ne_nil_of_node? (h : d.node? p ≠ some .dir) : p ≠ [] := by
  rintro rfl
  exact h rfl

/-- What a file is filled with stands at its place, unless a device has taken it. -/
theorem file?_fill {a : ByteArray} (h : d.isDir p = false) (q : Path) :
    (d.fill p a).file? q = if q = p ∧ d.isDevice p = false then some a else d.file? q := by
  have hp : p ≠ [] := ne_nil_of_node? (d := d) (mt isDir_iff.mpr (by simp [h]))
  unfold fill
  cases hdevice : d.isDevice p with
  | true => simp
  | false =>
    unfold file?
    simp only [Bool.false_eq_true, if_false, and_true]
    rw [node?_put _ hp]
    split_ifs with hq <;> rfl

/-- A file that is filled twice holds what it was filled with last. -/
theorem file?_fill_fill {a b : ByteArray} (h : d.isDir p = false) (q : Path) :
    ((d.fill p a).fill p b).file? q =
      if q = p ∧ d.isDevice p = false then some b else d.file? q := by
  cases hdevice : d.isDevice p with
  | true => simp [fill, hdevice]
  | false =>
    have hp : p ≠ [] := ne_nil_of_node? (d := d) (mt isDir_iff.mpr (by simp [h]))
    have hnode : (d.fill p a).node? p = some (.file a) := by
      simp [fill, hdevice, node?_put _ hp]
    have hfilled : (d.fill p a).isDevice p = false := by simp [isDevice, hnode]
    rw [file?_fill (by simp [isDir, hnode]), file?_fill h, hfilled, hdevice]
    split_ifs <;> rfl

/-! ## Following a name -/

/-- A step is taken from a directory only. -/
theorem find_cons {part : String} {rest : List String} :
    d.find p (part :: rest) = .ok q ↔ d.isDir p ∧ d.find (p.enter part) rest = .ok q := by
  rw [find, isDir_iff]
  cases d.node? p with
  | none => simp
  | some x => cases x <;> simp

theorem find_eq_ok (h : d.find p parts = .ok q) : q = p.follow parts := by
  induction parts generalizing p with
  | nil =>
    cases h
    rfl
  | cons part rest ih => exact ih (find_cons.mp h).2

/-- A name that can be followed can be followed without the parts that do not lead on. -/
theorem find_filter (h : d.find p parts = .ok q) : d.find p (parts.filter Path.leads) = .ok q := by
  induction parts generalizing p with
  | nil => exact h
  | cons part rest ih =>
    obtain ⟨hp, h⟩ := find_cons.mp h
    cases hpart : Path.leads part with
    | false =>
      rw [Path.enter_of_not_leads hpart] at h
      rw [List.filter_cons_of_neg (by simp [hpart])]
      exact ih h
    | true =>
      rw [List.filter_cons_of_pos hpart]
      exact find_cons.mpr ⟨hp, ih h⟩

/-- **A name can be followed exactly if all places before its last part are directories.** -/
theorem find_concat {part : String} :
    d.find p (parts ++ [part]) = .ok q ↔
      (∀ r ∈ p :: p.trail parts, d.isDir r) ∧ q = (p.follow parts).enter part := by
  induction parts generalizing p with
  | nil =>
    rw [List.nil_append, find_cons, find, Except.ok.injEq, eq_comm (b := q), Path.trail,
      List.forall_mem_singleton]
    rfl
  | cons first rest ih =>
    rw [List.cons_append, find_cons, ih, Path.trail, List.forall_mem_cons (a := p), and_assoc,
      Path.follow_cons]

/-! ## Making directories -/

/-- `d'` is `d` with directories at some places, where they may have been before. -/
structure WithDirs (d : Disk) (ps : List Path) (d' : Disk) : Prop where
  here : d'.here = d.here
  file? (q : Path) : d'.file? q = d.file? q
  isDevice (q : Path) : d'.isDevice q = d.isDevice q
  isDir (q : Path) : d'.isDir q ↔ d.isDir q ∨ q ∈ ps

theorem WithDirs.trans {d₁ d₂ d₃ : Disk} {ps qs : List Path} (h₁ : d₁.WithDirs ps d₂)
    (h₂ : d₂.WithDirs qs d₃) : d₁.WithDirs (ps ++ qs) d₃ where
  here := h₂.here.trans h₁.here
  file? q := (h₂.file? q).trans (h₁.file? q)
  isDevice q := (h₂.isDevice q).trans (h₁.isDevice q)
  isDir q := by rw [h₂.isDir, h₁.isDir, List.mem_append, or_assoc]

theorem WithDirs.clear_iff {ps : List Path} (h : d.WithDirs ps d') : d'.Clear q ↔ d.Clear q := by
  rw [Clear, Clear, h.file?, h.isDevice]

theorem withDirs_of_isDir (h : d.isDir p) : d.WithDirs [p] d where
  here := rfl
  file? _ := rfl
  isDevice _ := rfl
  isDir q := by
    rw [List.mem_singleton]
    exact ⟨.inl, fun hq => hq.elim id fun hq => hq ▸ h⟩

/-- A new directory is no file and takes the place of none. -/
theorem withDirs_put (h : d.node? p = none) : d.WithDirs [p] (d.put p .dir) := by
  have hp : p ≠ [] := ne_nil_of_node? (d := d) (by simp [h])
  refine ⟨rfl, fun q => ?_, fun q => ?_, fun q => ?_⟩
  · unfold Disk.file?
    rw [node?_put _ hp]
    split_ifs with hq
    · rw [hq, h]
    · rfl
  · unfold Disk.isDevice
    rw [node?_put _ hp]
    split_ifs with hq
    · rw [hq, h]
    · rfl
  · rw [isDir_iff, isDir_iff, node?_put _ hp, List.mem_singleton]
    split_ifs with hq
    · simp [hq]
    · simp [hq]

/-- Each part makes its directory, if it is not there, or meets a fault that ends the making. -/
theorem makeDirs_cons (d : Disk) (p : Path) (part : String) (rest : List String) :
    (∃ d', d.makeDirs p (part :: rest) = d'.makeDirs (p.enter part) rest ∧
      d.WithDirs [p.enter part] d' ∧ Name.legal part ∧ d.Clear (p.enter part)) ∨
    ((∃ f, d.makeDirs p (part :: rest) = (.error f, d)) ∧
      ¬ (Name.legal part ∧ d.Clear (p.enter part))) := by
  rw [makeDirs]
  by_cases hpart : Name.legal part
  · simp only [if_pos hpart]
    cases h : d.node? (p.enter part) with
    | none => exact .inl ⟨_, rfl, withDirs_put h, hpart, by simp [clear_iff, h]⟩
    | some x =>
      cases x with
      | dir =>
        exact .inl ⟨d, rfl, withDirs_of_isDir (isDir_iff.mpr h), hpart, by simp [clear_iff, h]⟩
      | file a => exact .inr ⟨⟨_, rfl⟩, by simp [clear_iff, h]⟩
      | device => exact .inr ⟨⟨_, rfl⟩, by simp [clear_iff, h]⟩
  · exact .inr ⟨⟨_, if_neg hpart⟩, fun h => hpart h.1⟩

/-- Making directories changes no file, whether it succeeds or not. -/
theorem file?_makeDirs (d : Disk) (p : Path) (parts : List String) (q : Path) :
    (d.makeDirs p parts).2.file? q = d.file? q := by
  induction parts generalizing d p with
  | nil => rfl
  | cons part rest ih =>
    rcases d.makeDirs_cons p part rest with ⟨d', heq, hd', -⟩ | ⟨⟨f, heq⟩, -⟩
    · rw [heq, ih, hd'.file?]
    · rw [heq]

/-- **Directories can be made exactly if nothing else stands at the place of one of them.** -/
theorem exists_makeDirs_iff :
    (∃ d', d.makeDirs p parts = (.ok (), d')) ↔
      (∀ part ∈ parts, Name.legal part) ∧ ∀ q ∈ p.trail parts, d.Clear q := by
  induction parts generalizing d p with
  | nil => simp [makeDirs, Path.trail]
  | cons part rest ih =>
    rw [Path.trail, List.forall_mem_cons, List.forall_mem_cons]
    rcases d.makeDirs_cons p part rest with ⟨d₁, heq, hd₁, hpart, hclear⟩ | ⟨⟨f, heq⟩, hnot⟩
    · rw [heq, ih]
      simp only [hd₁.clear_iff, hpart, hclear, true_and]
    · rw [heq]
      exact iff_of_false (fun ⟨_, h⟩ => nomatch h) fun h => hnot ⟨h.1.1, h.2.1⟩

/-- **If they can be made, the directories are those of before and the ones passed through.** -/
theorem withDirs_of_makeDirs (h : d.makeDirs p parts = (.ok (), d')) :
    d.WithDirs (p.trail parts) d' := by
  induction parts generalizing d p with
  | nil =>
    cases h
    exact ⟨rfl, fun _ => rfl, fun _ => rfl, fun q => by simp [Path.trail]⟩
  | cons part rest ih =>
    rcases d.makeDirs_cons p part rest with ⟨d₁, heq, hd₁, -⟩ | ⟨⟨f, heq⟩, -⟩
    · exact hd₁.trans (ih (heq ▸ h))
    · rw [heq] at h
      cases h

end Disk

end StrandScript
