import Mathlib.Data.Finset.Card
import Mathlib.Order.Bounds.Basic
import Mathlib.Order.Interval.Finset.Nat
import StrandScript.Proofs.DrawingText
import StrandScript.Proofs.Places
import StrandScript.Proofs.Reading

/-!
# Files are kept when drawings are saved

A drawing takes its own name or, if a file is at its place, the first spare one at whose place there
is none (`Disk.Takes`). There is such a name since the places of the spare names are all different
(`Disk.exists_free`), and the search comes to it (`Disk.freeFrom_eq`).

* `Disk.takes_of_save`, `Disk.exists_save`: what it takes to save a drawing, and what the files are
  then.
* `Disk.saving_keeps_files`: in a sequence of requests none changes a file, and each that succeeds
  adds one.
-/

namespace StrandScript

/-! ## Spare names -/

namespace Name

/-- All parts of a name can stand in it. -/
def Legal (n : Name) : Prop := ∀ part ∈ n.parts, legal part

theorem spare_last_inj {k l : Nat} : (spare k).last = (spare l).last ↔ k = l := by
  refine ⟨fun h => ?_, fun h => by rw [h]⟩
  rw [spare, spare, String.append_left_inj, String.append_right_inj,
    Nat.toString_eq_ofList_toDigits, Nat.toString_eq_ofList_toDigits, String.ofList_inj] at h
  -- The digits of a number tell it.
  rw [← Nat.ofDigitChars_ten_toDigits (n := k), h, Nat.ofDigitChars_ten_toDigits]

/-- The last part of a spare name is none of those that do not add to a place. -/
theorem enter_spare (p : Path) (k : Nat) : p.enter (spare k).last = p ++ [(spare k).last] := by
  have ho : 'o' ∈ (spare k).last.toList := by
    simp [spare, String.toList_append]
  have hne : ∀ s : String, 'o' ∉ s.toList → (spare k).last ≠ s := fun s hs h => hs (h ▸ ho)
  simp [Path.enter, Path.leads, hne "" (by decide), hne "." (by decide), hne ".." (by decide)]

theorem legal_spare (k : Nat) : (spare k).Legal := by
  have hdigits : '\x00' ∉ Nat.toDigits 10 k := fun h =>
    absurd (Nat.isDigit_of_mem_toDigits (by decide) (by decide) h) (by decide)
  have hlast : legal (spare k).last := by
    simp [legal, spare, String.toList_append, hdigits]
  exact List.forall_mem_cons.mpr ⟨by decide, List.forall_mem_singleton.mpr hlast⟩

end Name

namespace Disk

variable {d d' : Disk} {a : ByteArray} {n m : Name} {p q : Path}

/-- The place of a name. -/
def place (d : Disk) (n : Name) : Path := (d.start n).follow n.parts

/-- The places that a name leads through before its last part. -/
def way (d : Disk) (n : Name) : List Path := d.start n :: (d.start n).trail n.dirs

/-- The way of a name is there. -/
def HasWay (d : Disk) (n : Name) : Prop := ∀ p ∈ d.way n, d.isDir p

theorem place_spare (d : Disk) (k : Nat) :
    d.place (.spare k) = d.here ++ ["out", (Name.spare k).last] := by
  rw [place, Name.parts, Path.follow_concat, Name.enter_spare]
  exact List.append_assoc d.here ["out"] [(Name.spare k).last]

theorem place_spare_injective (d : Disk) : Function.Injective fun k => d.place (.spare k) := by
  intro k l h
  simpa [place_spare, Name.spare_last_inj] using h

/-- All spare names lead the same way. -/
theorem HasWay.spare {k : Nat} (h : d.HasWay (.spare k)) (l : Nat) : d.HasWay (.spare l) := h

/-! ## Whether a name is free -/

/-- If the way of a name is there, what stands at its place tells whether it is that of a file. -/
theorem isFile_iff (hway : d.HasWay n) :
    d.isFile n ↔ n.Legal ∧ d.file? (d.place n) ≠ none := by
  have hfind : d.find (d.start n) n.parts = .ok (d.place n) :=
    find_concat.mpr ⟨hway, Path.follow_concat _ _ _⟩
  rw [isFile, find_filter hfind, Bool.and_eq_true, List.all_eq_true, Option.isSome_iff_ne_none]
  rfl

/-- A file that is found under a name is at its place. -/
theorem file?_of_isFile (h : d.isFile n) : n.Legal ∧ d.file? (d.place n) ≠ none := by
  rw [isFile, Bool.and_eq_true, List.all_eq_true] at h
  refine ⟨h.1, ?_⟩
  cases hfind : d.find (d.start n) (n.parts.filter Path.leads) with
  | error f =>
    rw [hfind] at h
    cases h.2
  | ok p =>
    rw [hfind] at h
    rw [place, ← Path.follow_filter, ← find_eq_ok hfind]
    exact Option.isSome_iff_ne_none.mp h.2

theorem mem_nodes_of_file? (h : d.file? p ≠ none) : p ∈ d.nodes.map Prod.fst := by
  obtain ⟨a, ha⟩ := Option.ne_none_iff_exists'.mp h
  rw [file?_eq_some, node?] at ha
  split_ifs at ha
  · cases ha
  · obtain ⟨l, l', heq, -⟩ := List.lookup_eq_some_iff.mp ha
    rw [heq, List.map_append, List.map_cons]
    exact List.mem_append_right _ List.mem_cons_self

/-- **Among one more spare names than there are files and directories, one is free.** -/
theorem exists_free (d : Disk) :
    ∃ k, 1 ≤ k ∧ k ≤ 1 + d.nodes.length ∧ d.isFile (.spare k) = false := by
  by_contra! hall
  -- Otherwise their places, all different, would be among those where something stands.
  have hsub : (Finset.Icc 1 (1 + d.nodes.length)).image (fun k => d.place (.spare k)) ⊆
      (d.nodes.map Prod.fst).toFinset := by
    intro p hp
    obtain ⟨k, hk, rfl⟩ := Finset.mem_image.mp hp
    obtain ⟨hk, hk'⟩ := Finset.mem_Icc.mp hk
    have hfile : d.isFile (.spare k) := by simpa using hall k hk hk'
    exact List.mem_toFinset.mpr (mem_nodes_of_file? (file?_of_isFile hfile).2)
  have hcard := (Finset.card_le_card hsub).trans (List.toFinset_card_le _)
  rw [Finset.card_image_of_injective _ d.place_spare_injective, Nat.card_Icc,
    List.length_map] at hcard
  omega

/-- The search finds the first free name, if there is one among those it looks at. -/
theorem freeFrom_eq {fuel k : Nat}
    (h : ∃ l, k ≤ l ∧ l ≤ k + fuel ∧ d.isFile (.spare l) = false) :
    ∃ l, d.freeFrom fuel k = .spare l ∧ IsLeast {l | k ≤ l ∧ d.isFile (.spare l) = false} l := by
  obtain ⟨l, hkl, hl, hfree⟩ := h
  induction fuel generalizing k with
  | zero =>
    obtain rfl : k = l := Nat.le_antisymm hkl hl
    exact ⟨k, rfl, ⟨hkl, hfree⟩, fun _ hm => hm.1⟩
  | succ fuel ih =>
    cases hk : d.isFile (.spare k) with
    | false => exact ⟨k, by simp [freeFrom, hk], ⟨le_rfl, hk⟩, fun _ hm => hm.1⟩
    | true =>
      -- A name that is taken is not the least free one, so the bound can go up by one.
      have hne {i : Nat} (hi : d.isFile (.spare i) = false) : k ≠ i := by
        rintro rfl
        rw [hk] at hi
        cases hi
      obtain ⟨m, heq, ⟨hm, hmfree⟩, hleast⟩ :=
        ih (Nat.lt_of_le_of_ne hkl (hne hfree)) (by omega)
      refine ⟨m, by rw [freeFrom, if_pos hk, heq], ⟨Nat.le_of_succ_le hm, hmfree⟩, ?_⟩
      rintro i ⟨hki, hi⟩
      exact hleast ⟨Nat.lt_of_le_of_ne hki (hne hi), hi⟩

/-- Under which name a drawing is saved: its own one if no file is at its place, and else the first
spare one at whose place there is no file. -/
inductive Takes (d : Disk) (n : Name) : Name → Prop
  | own (hown : d.file? (d.place n) = none) : d.Takes n n
  | spare {k : Nat} (hown : d.file? (d.place n) ≠ none)
      (hleast : IsLeast {k | 1 ≤ k ∧ d.file? (d.place (.spare k)) = none} k) : d.Takes n (.spare k)

theorem Takes.file?_eq_none (h : d.Takes n m) : d.file? (d.place m) = none := by
  cases h with
  | own hown => exact hown
  | spare _ hleast => exact hleast.1.2

/-- On a disk where the way of spare names is there, those that are free have no file at their
place. -/
theorem isFile_spare_iff {k : Nat} (hway : d.HasWay (.spare k)) (l : Nat) :
    d.isFile (.spare l) = false ↔ d.file? (d.place (.spare l)) = none := by
  rw [← Bool.not_eq_true, isFile_iff (hway.spare l), and_iff_right (Name.legal_spare l), not_ne_iff]

theorem free_cases (d : Disk) (n : Name) :
    (d.isFile n = false ∧ d.free n = n) ∨
      (d.isFile n = true ∧
        ∃ k, d.free n = .spare k ∧ IsLeast {k | 1 ≤ k ∧ d.isFile (.spare k) = false} k) := by
  unfold free
  cases d.isFile n with
  | false => exact .inl ⟨rfl, rfl⟩
  | true => exact .inr ⟨rfl, freeFrom_eq d.exists_free⟩

/-- If the way of the name that is found is there, the drawing takes this name. -/
theorem takes_free (hlegal : (d.free n).Legal) (hway : d.HasWay (d.free n)) :
    d.Takes n (d.free n) := by
  rcases d.free_cases n with ⟨hfile, heq⟩ | ⟨hfile, k, heq, hleast⟩
  · rw [heq] at hlegal hway ⊢
    refine .own ?_
    by_contra hnone
    rw [(isFile_iff hway).mpr ⟨hlegal, hnone⟩] at hfile
    cases hfile
  · rw [heq] at hway ⊢
    simp only [isFile_spare_iff hway] at hleast
    exact .spare (file?_of_isFile hfile).2 hleast

/-- If the ways are there, the name that a drawing takes is the one that is found. -/
theorem free_eq_of_takes (hlegal : n.Legal) (hn : d.HasWay n) (hm : d.HasWay m) (h : d.Takes n m) :
    d.free n = m := by
  have hfile := isFile_iff hn
  cases h with
  | own hown =>
    rcases d.free_cases n with ⟨-, heq⟩ | ⟨htrue, -⟩
    · exact heq
    · exact absurd hown (hfile.mp htrue).2
  | spare hown hleast =>
    rcases d.free_cases n with ⟨hfalse, -⟩ | ⟨-, k, heq, hleast'⟩
    · rw [hfile.mpr ⟨hlegal, hown⟩] at hfalse
      cases hfalse
    · simp only [isFile_spare_iff hm] at hleast'
      rw [heq, hleast'.unique hleast]

/-! ## Saving -/

/-- A name can be opened exactly if its way is there. -/
theorem locate_eq_ok :
    d.locate n = .ok p ↔ n.parts ≠ [""] ∧ n.Legal ∧ d.HasWay n ∧ p = d.place n := by
  have hfind : d.find (d.start n) n.parts = .ok p ↔ d.HasWay n ∧ p = d.place n := by
    rw [place, Name.parts, Path.follow_concat]
    exact find_concat
  unfold locate
  split_ifs with hempty hlegal
  · simp [hempty]
  · have hlegal : n.Legal := List.all_eq_true.mp hlegal
    rw [hfind, and_iff_right hempty, and_iff_right hlegal]
  · have hlegal : ¬ n.Legal := mt List.all_eq_true.mpr hlegal
    simp [hlegal]

theorem openFile_eq_ok :
    d.openFile n = .ok (p, d') ↔
      n.parts ≠ [""] ∧ n.Legal ∧ d.HasWay n ∧ d.isDir (d.place n) = false ∧ p = d.place n ∧
        d' = d.fill p .empty := by
  rw [openFile, Outcome.bind_eq_ok]
  constructor
  · rintro ⟨q, hq, h⟩
    obtain ⟨hempty, hlegal, hway, rfl⟩ := locate_eq_ok.mp hq
    split_ifs at h with hdir
    cases h
    exact ⟨hempty, hlegal, hway, Bool.eq_false_iff.mpr hdir, rfl, rfl⟩
  · rintro ⟨hempty, hlegal, hway, hdir, rfl, rfl⟩
    refine ⟨_, locate_eq_ok.mpr ⟨hempty, hlegal, hway, rfl⟩, ?_⟩
    rw [hdir]
    rfl

/-- The places that are directories once those of a name have been made. -/
def Made (d : Disk) (n : Name) (p : Path) : Prop := d.isDir p ∨ p ∈ (d.start n).trail n.steps

/-- What it takes to save a drawing of name `n` under the name `m`. -/
structure Admits (d : Disk) (n m : Name) : Prop where
  /-- The name given has a directory in it. -/
  named : n.dirs ≠ []
  legal : n.Legal
  /-- Nothing else stands where one of its directories is to be. -/
  clear : ∀ p ∈ (d.start n).trail n.steps, d.Clear p
  /-- The directories on the way to the drawing are there, or are made. -/
  way : ∀ p ∈ d.way m, d.Made n p
  /-- The drawing is not to stand where a directory is, or is made. -/
  last : ¬ d.Made n (d.place m)

theorem WithDirs.place_eq {ps : List Path} (h : d.WithDirs ps d') (n : Name) :
    d'.place n = d.place n := by
  rw [place, place, start, start, h.here]

theorem WithDirs.way_eq {ps : List Path} (h : d.WithDirs ps d') (n : Name) :
    d'.way n = d.way n := by
  rw [way, way, start, start, h.here]

theorem Takes.congr (hfile : d'.file? = d.file?) (hplace : d'.place = d.place) (h : d.Takes n m) :
    d'.Takes n m := by
  cases h with
  | own hown => exact .own (by rwa [hfile, hplace])
  | spare hown hleast => exact .spare (by rwa [hfile, hplace]) (by rwa [hfile, hplace])

/-- Directories do not matter for the name that a drawing takes. -/
theorem WithDirs.takes_iff {ps : List Path} (h : d.WithDirs ps d') :
    d'.Takes n m ↔ d.Takes n m := by
  have hfile : d'.file? = d.file? := funext h.file?
  have hplace : d'.place = d.place := funext h.place_eq
  exact ⟨Takes.congr hfile.symm hplace.symm, Takes.congr hfile hplace⟩

/-- If the way of the name that a drawing takes is there in the end, so is that of its own name. -/
theorem made_way (h : d.Takes n m) (hway : ∀ p ∈ d.way m, d.Made n p) :
    ∀ p ∈ d.way n, d.Made n p := by
  have hstart : d.Made n (d.start n) := by
    cases h with
    | own => exact hway _ List.mem_cons_self
    | spare =>
      -- The root is a directory, and every spare name starts from the working directory.
      unfold start
      split_ifs
      · exact .inl rfl
      · exact hway _ List.mem_cons_self
  intro p hp
  rcases List.mem_cons.mp hp with rfl | hp
  · exact hstart
  · rcases Path.mem_trail_filter hp with rfl | hp
    · exact hstart
    · exact .inr hp

/-- The name under which a file is opened is the one that the text takes. -/
theorem takes_of_openFile {d₁ d₂ : Disk} (hdirs : n.dirs ≠ [])
    (hmade : d.makeDirs (d.start n) n.steps = (.ok (), d₁))
    (hopen : d₁.openFile (d₁.free n) = .ok (p, d₂)) : ∃ m, d.Takes n m ∧ d.Admits n m := by
  -- The search is made on the disk with the directories, where the files are the same.
  have hclear := (exists_makeDirs_iff.mp ⟨d₁, hmade⟩).2
  have hwith := withDirs_of_makeDirs hmade
  obtain ⟨-, hlegal, hway, hlast, -, -⟩ := openFile_eq_ok.mp hopen
  have htakes : d.Takes n (d₁.free n) := hwith.takes_iff.mp (takes_free hlegal hway)
  refine ⟨d₁.free n, htakes, ⟨hdirs, ?_, hclear, fun p hp => ?_, fun hdir => ?_⟩⟩
  · rcases d₁.free_cases n with ⟨-, heq⟩ | ⟨hfile, -⟩
    · exact heq ▸ hlegal
    · exact (file?_of_isFile hfile).1
  · exact (hwith.isDir p).mp (hway p (hwith.way_eq _ ▸ hp))
  · rw [hwith.place_eq, (hwith.isDir _).mpr hdir] at hlast
    cases hlast

theorem Takes.legal (h : d.Takes n m) (hlegal : n.Legal) : m.Legal := by
  cases h with
  | own => exact hlegal
  | spare => exact Name.legal_spare _

theorem Takes.dirs_ne_nil (h : d.Takes n m) (hdirs : n.dirs ≠ []) : m.dirs ≠ [] := by
  cases h with
  | own => exact hdirs
  | spare => exact List.cons_ne_nil _ _

/-- What it takes to open a file is enough. -/
theorem openFile_of_takes (h : d.Takes n m) (hadmits : d.Admits n m) :
    ∃ d₁, d.makeDirs (d.start n) n.steps = (.ok (), d₁) ∧
      d.WithDirs ((d.start n).trail n.steps) d₁ ∧ d₁.isDir (d.place m) = false ∧
      d₁.openFile (d₁.free n) = .ok (d.place m, d₁.fill (d.place m) .empty) := by
  have hsteps : ∀ part ∈ n.steps, Name.legal part := fun part hpart =>
    hadmits.legal part (List.mem_append_left _ (List.mem_of_mem_filter hpart))
  obtain ⟨d₁, hmade⟩ := exists_makeDirs_iff.mpr ⟨hsteps, hadmits.clear⟩
  have hwith := withDirs_of_makeDirs hmade
  have hway (k : Name) (hk : ∀ p ∈ d.way k, d.Made n p) : d₁.HasWay k :=
    fun p hp => (hwith.isDir p).mpr (hk p (hwith.way_eq k ▸ hp))
  have hfree := free_eq_of_takes hadmits.legal (hway n (made_way h hadmits.way))
    (hway m hadmits.way) (hwith.takes_iff.mpr h)
  have hparts : m.parts ≠ [""] := fun heq =>
    h.dirs_ne_nil hadmits.named (List.append_eq_singleton_iff.mp heq |>.resolve_right (by simp)).1
  have hlast : d₁.isDir (d.place m) = false := by
    rw [Bool.eq_false_iff]
    exact fun hlast => hadmits.last ((hwith.isDir _).mp hlast)
  refine ⟨d₁, hmade, hwith, hlast, ?_⟩
  rw [hfree, openFile_eq_ok, hwith.place_eq]
  exact ⟨hparts, h.legal hadmits.legal, hway m hadmits.way, hlast, rfl, rfl⟩

/-- What a file holds once its text has been made, or could not be. -/
def contents : Except Fault String → ByteArray
  | .ok t => t.toUTF8
  | .error _ => .empty

/-- **A text that takes a name is written at its place, if it can be made**, and else leaves the
file empty. No other file changes, and no file at all if a device stands there. -/
theorem save_of_takes (h : d.Takes n m) (hadmits : d.Admits n m) (text : Except Fault String) :
    (d.save n text).1 = text.map (fun _ => ()) ∧
      ∀ q, (d.save n text).2.file? q =
        if q = d.place m ∧ d.isDevice (d.place m) = false then some (contents text)
        else d.file? q := by
  obtain ⟨d₁, hmade, hwith, hlast, hopen⟩ := openFile_of_takes h hadmits
  have hdirs : n.dirs.isEmpty = false := by simpa using hadmits.named
  simp only [save, hdirs, hmade, hopen]
  cases text with
  | error f =>
    refine ⟨rfl, fun q => ?_⟩
    exact (file?_fill hlast q).trans (by rw [hwith.isDevice, hwith.file?, contents])
  | ok t =>
    refine ⟨rfl, fun q => ?_⟩
    exact (file?_fill_fill hlast q).trans (by rw [hwith.isDevice, hwith.file?, contents])

/-- If there is no name to take nothing is written, and no file changes. -/
theorem save_of_not_takes (h : ∀ m, d.Takes n m → ¬ d.Admits n m) (text : Except Fault String) :
    (∃ f, (d.save n text).1 = .error f) ∧ ∀ q, (d.save n text).2.file? q = d.file? q := by
  have hmade := d.file?_makeDirs (d.start n) n.steps
  unfold save
  split_ifs with hdirs
  · exact ⟨⟨_, rfl⟩, fun _ => rfl⟩
  · rw [List.isEmpty_iff] at hdirs
    rcases heq : d.makeDirs (d.start n) n.steps with ⟨f | _, d₁⟩
    · rw [heq] at hmade
      exact ⟨⟨f, rfl⟩, hmade⟩
    · rw [heq] at hmade
      cases hopen : d₁.openFile (d₁.free n) with
      | error f =>
        simp only [hopen]
        exact ⟨⟨f, rfl⟩, hmade⟩
      | ok opened =>
        obtain ⟨m, htakes, hadmits⟩ := takes_of_openFile hdirs heq hopen
        exact absurd hadmits (h m htakes)

/-! ## Sequences of requests -/

/-- A request opens a file under the name `m`: its drawing is laid out, and it takes that name. -/
structure Opens (d : Disk) (r : Request) (m : Name) : Prop where
  laid : ∃ c, r.canvas = .ok c
  takes : d.Takes (.given r.name) m
  admits : d.Admits (.given r.name) m

variable {r : Request}

/-- A request that opens a file does what its text does. -/
theorem serve_of_opens {c : Picture.Canvas} (hc : r.canvas = .ok c) (h : d.Opens r m) :
    (d.serve r).1 = c.text.map (fun _ => ()) ∧
      ∀ q, (d.serve r).2.file? q =
        if q = d.place m ∧ d.isDevice (d.place m) = false then some (contents c.text)
        else d.file? q := by
  unfold serve
  rw [hc]
  exact save_of_takes h.takes h.admits c.text

/-- A request that opens no file fails and changes none. -/
theorem serve_of_not_opens (h : ¬ ∃ m, d.Opens r m) :
    (∃ f, (d.serve r).1 = .error f) ∧ ∀ q, (d.serve r).2.file? q = d.file? q := by
  unfold serve
  cases hc : r.canvas with
  | error f => exact ⟨⟨f, rfl⟩, fun _ => rfl⟩
  | ok c => exact save_of_not_takes (fun m ht ha => h ⟨m, ⟨c, hc⟩, ht, ha⟩) c.text

/-- One request changes no file that is there. -/
theorem file?_serve (h : d.file? p = some a) : (d.serve r).2.file? p = some a := by
  by_cases hopens : ∃ m, d.Opens r m
  · obtain ⟨m, hm⟩ := hopens
    obtain ⟨c, hc⟩ := hm.laid
    rw [(serve_of_opens hc hm).2, if_neg, h]
    -- The place that is written to had no file.
    rintro ⟨rfl, -⟩
    rw [hm.takes.file?_eq_none] at h
    cases h
  · rw [(serve_of_not_opens hopens).2, h]

/-- Nor does a sequence of requests. -/
theorem file?_serveAll (rs : List Request) (h : d.file? p = some a) :
    (d.serveAll rs).file? p = some a := by
  induction rs generalizing d with
  | nil => exact h
  | cons r rs ih => exact ih (file?_serve h)

/-- A request succeeds exactly if it opens a file and its drawing can be written. -/
theorem serve_eq_ok :
    (d.serve r).1 = .ok () ↔ ∃ c m, r.canvas = .ok c ∧ c.writable = true ∧ d.Opens r m := by
  constructor
  · intro hok
    by_cases hopens : ∃ m, d.Opens r m
    · obtain ⟨m, hm⟩ := hopens
      obtain ⟨c, hc⟩ := hm.laid
      refine ⟨c, m, hc, Bool.of_not_eq_false fun hfalse => ?_, hm⟩
      rw [(serve_of_opens hc hm).1, c.text_toldBy.2 hfalse] at hok
      cases hok
    · obtain ⟨⟨f, hf⟩, -⟩ := serve_of_not_opens hopens
      rw [hf] at hok
      cases hok
  · rintro ⟨c, m, hc, hwritable, hm⟩
    obtain ⟨t, ht⟩ := c.text_toldBy.1 hwritable
    rw [(serve_of_opens hc hm).1, ht]
    rfl

/-- **Saving never writes over a file.** In any sequence of requests, on any disk, a request changes
and removes no file that was there before it, and none that follows does. If it succeeds it adds one
file, at the place of its own name or, if a file is there, of the first spare name at whose place
there is none; only where a device stands at that place it adds no file. If it fails before it opens
a file it adds none. If it fails after that, since a number of its drawing is too long to be
written, its own new file is left empty. It succeeds exactly if its drawing can be laid out and
written, and can be saved under that name. -/
theorem saving_keeps_files (d : Disk) (earlier later : List Request) (r : Request) :
    let before := d.serveAll earlier
    let outcome := (before.serve r).1
    let after := (before.serve r).2
    let name := Name.given r.name
    (∀ p a, before.file? p = some a →
      after.file? p = some a ∧ (d.serveAll (earlier ++ r :: later)).file? p = some a) ∧
    (outcome = .ok () → ∃ c t m, r.canvas = .ok c ∧ c.text = .ok t ∧ before.Takes name m ∧
      before.file? (before.place m) = none ∧
      ∀ p, after.file? p =
        if p = before.place m ∧ before.isDevice p = false then some t.toUTF8
        else before.file? p) ∧
    (∀ f, outcome = .error f → (¬ ∃ m, before.Opens r m) → ∀ p, after.file? p = before.file? p) ∧
    (∀ f m, outcome = .error f → before.Opens r m →
      f = .badValue ∧ (∃ c, r.canvas = .ok c ∧ c.writable = false) ∧ before.Takes name m ∧
      before.file? (before.place m) = none ∧
      ∀ p, after.file? p =
        if p = before.place m ∧ before.isDevice p = false then some .empty
        else before.file? p) ∧
    (outcome = .ok () ↔
      (∃ c, r.canvas = .ok c ∧ c.writable = true) ∧
        ∃ m, before.Takes name m ∧ before.Admits name m) := by
  intro before outcome after name
  have hlater : d.serveAll (earlier ++ r :: later) = after.serveAll later := by
    rw [serveAll, List.foldl_append]
    rfl
  have hfiles {c : Picture.Canvas} {m : Name} (hc : r.canvas = .ok c) (hm : before.Opens r m)
      (p : Path) : after.file? p =
        if p = before.place m ∧ before.isDevice p = false then some (contents c.text)
        else before.file? p := by
    rw [(serve_of_opens hc hm).2]
    exact if_congr (and_congr_right fun h => by rw [h]) rfl rfl
  refine ⟨fun p a h => ?_, fun hok => ?_, fun f _ hopens => (serve_of_not_opens hopens).2,
    fun f m herror hm => ?_, serve_eq_ok.trans ?_⟩
  · have hafter : after.file? p = some a := file?_serve h
    exact ⟨hafter, hlater ▸ file?_serveAll later hafter⟩
  · obtain ⟨c, m, hc, hwritable, hm⟩ := serve_eq_ok.mp hok
    obtain ⟨t, ht⟩ := c.text_toldBy.1 hwritable
    refine ⟨c, t, m, hc, ht, hm.takes, hm.takes.file?_eq_none, fun p => ?_⟩
    rw [hfiles hc hm, ht]
    rfl
  · obtain ⟨c, hc⟩ := hm.laid
    have hwritable : c.writable = false := by
      rw [← Bool.not_eq_true]
      intro htrue
      have hok : outcome = .ok () := serve_eq_ok.mpr ⟨c, m, hc, htrue, hm⟩
      rw [herror] at hok
      cases hok
    have htext := c.text_toldBy.2 hwritable
    have houtcome : outcome = c.text.map fun _ => () := (serve_of_opens hc hm).1
    rw [herror, htext] at houtcome
    refine ⟨Except.error.inj houtcome, ⟨c, hc, hwritable⟩, hm.takes, hm.takes.file?_eq_none,
      fun p => ?_⟩
    rw [hfiles hc hm, htext]
    rfl
  · constructor
    · rintro ⟨c, m, hc, hwritable, hm⟩
      exact ⟨⟨c, hc, hwritable⟩, m, hm.takes, hm.admits⟩
    · rintro ⟨⟨c, hc, hwritable⟩, m, htakes, hadmits⟩
      exact ⟨c, m, hc, hwritable, ⟨c, hc⟩, htakes, hadmits⟩

/-- A glyph that asks whether a cell is positive. -/
def asking : Glyph :=
  ⟨⟨1, [[' ', ' ', '╷'], [' ', ' ', '│'], [' ', ' ', '╷'], [' ', ' ', '│', ' ', ' ']]⟩,
    [.question
      ⟨⟨⟨.closing, ⟨2, 0⟩, .down, .question⟩, [⟨'│', ⟨2, 1⟩, some .down⟩, ⟨'╷', ⟨2, 2⟩, none⟩],
          .question ⟨2, 2⟩⟩,
        0, false,
        ⟨⟨.closing, ⟨2, 2⟩, .down, .question⟩, [⟨'│', ⟨2, 3⟩, none⟩], .question ⟨2, 3⟩⟩,
        ⟨3, 0⟩, .vertical, .cell ⟨1, 0⟩⟩]⟩

/-- A style with lines so broad that their width cannot be written. -/
def broad : Style := { Style.synth with strokeWidth := Style.whole Value.tooLong }

/-- A drawing that is saved to the device adds no file, and one that cannot be written adds an empty
one. -/
theorem saving_adds_other :
    Program.parse "╵ ╷\n  │\n  ╷\n  │ ╷" = .ok [asking] ∧
    (((empty ["home"]).serve ⟨.synth, [asking], some "/dev/null"⟩).1 = .ok () ∧
      ∀ p, ((empty ["home"]).serve ⟨.synth, [asking], some "/dev/null"⟩).2.file? p =
        (empty ["home"]).file? p) ∧
    ((empty ["home"]).serve ⟨broad, [asking], none⟩).1 = .error .badValue ∧
      (empty ["home"]).file? ["home", "out", "output.svg"] = none ∧
      ((empty ["home"]).serve ⟨broad, [asking], none⟩).2.file? ["home", "out", "output.svg"] =
        some .empty := by
  have hlaid : (Picture.canvas .synth [asking]).map (·.writable) = .ok true := by decide +kernel
  have hbroad : (Picture.canvas broad [asking]).map (·.writable) = .ok false := by decide +kernel
  obtain ⟨c, hc, hwritable⟩ := Outcome.map_eq_ok.mp hlaid
  obtain ⟨c', hc', hlong⟩ := Outcome.map_eq_ok.mp hbroad
  obtain ⟨t, ht⟩ := c.text_toldBy.1 hwritable
  have htext := c'.text_toldBy.2 hlong
  have hdevice : (empty ["home"]).serve ⟨.synth, [asking], some "/dev/null"⟩ =
      (.ok (), empty ["home"]) := by
    simp only [serve, Request.canvas, hc, ht]
    rfl
  have hlate : (empty ["home"]).serve ⟨broad, [asking], none⟩ =
      (empty ["home"]).save .standard (.error .badValue) := by
    simp only [serve, Request.canvas, hc', htext]
    rfl
  refine ⟨by cbv, ?_, ?_⟩
  · rw [hdevice]
    exact ⟨rfl, fun _ => rfl⟩
  · rw [hlate]
    exact ⟨rfl, rfl, rfl⟩

end Disk

end StrandScript
