import StrandScript.Fault

/-!
# Disks

Files, directories and devices by their places, and the working directory that names are read from.
A text is saved by making the directories of its name and then taking this name or, where a file has
it already, the first free numbered one, so that no file is ever written over. What cannot be made
into a text leaves an empty file, since by then it has been opened.

* `Disk.find`: the place that a name leads to, going through directories that are there.
* `Disk.makeDirs`: the directories of a name.
* `Disk.openFile`, `Disk.fill`: a file opened for writing, and what is written to it then.
* `Disk.save`: a text saved under a free name.
-/

namespace StrandScript

/-- A place: what leads to it from the root. -/
abbrev Path := List String

namespace Path

/-- Whether a part of a name leads on. An empty part and a dot do not. -/
def leads (part : String) : Bool := part != "" && part != "."

/-- The place that one part of a name leads to. Two dots go up, and the root lies above itself. -/
def enter (p : Path) (part : String) : Path :=
  if leads part then if part = ".." then p.dropLast else p ++ [part] else p

/-- The place that some parts lead to. -/
def follow (p : Path) (parts : List String) : Path := parts.foldl enter p

/-- The places that some parts lead through, the last one included. -/
def trail (p : Path) : List String → List Path
  | [] => []
  | part :: rest => p.enter part :: trail (p.enter part) rest

/-- A path as text. -/
def text (p : Path) : String := "/".intercalate p

end Path

/-- A name as it is written: the parts in front of its last slash, and the part after it. -/
structure Name where
  dirs : List String
  last : String
deriving Repr, DecidableEq

namespace Name

/-- The parts between the slashes of a name. -/
def split : List Char → List (List Char)
  | [] => [[]]
  | c :: cs =>
    match split cs with
    | [] => [[c]]
    | part :: parts => if c = '/' then [] :: part :: parts else (c :: part) :: parts

/-- Reads a name. -/
def ofString (s : String) : Name :=
  match ((split s.toList).map String.ofList).reverse with
  | [] => ⟨[], ""⟩
  | last :: dirs => ⟨dirs.reverse, last⟩

/-- All parts of a name. -/
def parts (n : Name) : List String := n.dirs ++ [n.last]

/-- The directories of a name. -/
def steps (n : Name) : List String := n.dirs.filter (· != "")

/-- Whether a name starts from the root: its first sign is a slash. -/
def rooted (n : Name) : Bool := n.dirs.head? == some ""

/-- Whether a part can stand in a name. -/
def legal (part : String) : Bool := !part.toList.contains '\x00'

/-- A name as text. -/
def text (n : Name) : String := Path.text n.parts

/-- The name of a drawing that is given none. -/
def standard : Name := ⟨["out"], "output.svg"⟩

/-- The name of a drawing. No name and the empty one stand for the standard one. -/
def given : Option String → Name
  | none => standard
  | some s => if s.isEmpty then standard else ofString s

/-- The `k`-th spare name. -/
def spare (k : Nat) : Name := ⟨["out"], "output" ++ toString k ++ ".svg"⟩

end Name

/-- What can stand at a place. A device takes what is written to it and keeps nothing. -/
inductive Node where
  | file (contents : ByteArray)
  | dir
  | device

/-- What stands at each place, and the working directory. -/
structure Disk where
  nodes : List (Path × Node)
  here : Path

namespace Disk

/-! ## Places -/

/-- What stands at a place. The root is always a directory. -/
def node? (d : Disk) (p : Path) : Option (Node) :=
  if p.isEmpty then some .dir else d.nodes.lookup p

/-- The contents of the file at a place. -/
def file? (d : Disk) (p : Path) : Option ByteArray :=
  match d.node? p with
  | some (.file a) => some a
  | _ => none

/-- Whether a place is a directory. -/
def isDir (d : Disk) (p : Path) : Bool :=
  match d.node? p with
  | some .dir => true
  | _ => false

/-- Whether a place is a device. -/
def isDevice (d : Disk) (p : Path) : Bool :=
  match d.node? p with
  | some .device => true
  | _ => false

/-- Puts something at a place, for what stands there. -/
def put (d : Disk) (p : Path) (n : Node) : Disk :=
  { d with nodes := d.nodes.filter (fun m => m.1 != p) ++ [(p, n)] }

/-- The place that parts lead to from a place. All places that are left on the way must be
directories; the last place need not be there. -/
def find (d : Disk) : Path → List String → Except Fault Path
  | p, [] => .ok p
  | p, part :: rest =>
    match d.node? p with
    | some .dir => d.find (p.enter part) rest
    | some _ => .error .notDirectory
    | none => .error .noSuchFile

/-! ## Names -/

/-- The place from which a name leads on. -/
def start (d : Disk) (n : Name) : Path := if n.rooted then [] else d.here

/-- Whether a name is that of a file. Parts that do not lead on are left out. -/
def isFile (d : Disk) (n : Name) : Bool :=
  n.parts.all Name.legal &&
    match d.find (d.start n) (n.parts.filter Path.leads) with
    | .ok p => (d.file? p).isSome
    | .error _ => false

/-- The place of a name that is to be opened. The empty name has none. -/
def locate (d : Disk) (n : Name) : Except Fault Path :=
  if n.parts = [""] then .error .noSuchFile
  else if n.parts.all Name.legal then d.find (d.start n) n.parts
  else .error .badValue

/-- The contents of a file. There is nothing to be read from a device. -/
def read (d : Disk) (n : Name) : Except Fault ByteArray := do
  match d.node? (← d.locate n) with
  | some (.file a) => .ok a
  | some .device => .ok .empty
  | some .dir => .error .isDirectory
  | none => .error .noSuchFile

/-- Makes the directories that some parts lead through from a directory. Those that were made before
a fault stay. -/
def makeDirs (d : Disk) (p : Path) : List String → Except Fault Unit × Disk
  | [] => (.ok (), d)
  | part :: rest =>
    if Name.legal part then
      match d.node? (p.enter part) with
      | some .dir => d.makeDirs (p.enter part) rest
      | some _ => (.error (if rest.isEmpty then .fileInWay else .notDirectory), d)
      | none => (d.put (p.enter part) .dir).makeDirs (p.enter part) rest
    else (.error .badValue, d)

/-- Writes the contents of an open file. -/
def fill (d : Disk) (p : Path) (a : ByteArray) : Disk :=
  if d.isDevice p then d else d.put p (.file a)

/-- Opens a file for writing and tells its place. It is empty from then on, whatever it held. -/
def openFile (d : Disk) (n : Name) : Except Fault (Path × Disk) := do
  let p ← d.locate n
  if d.isDir p then .error .isDirectory else .ok (p, d.fill p .empty)

/-! ## Saving -/

/-- The first spare name from the `k`-th on that no file has, looking at `fuel` of them. -/
def freeFrom (d : Disk) : Nat → Nat → Name
  | 0, k => .spare k
  | fuel + 1, k => if d.isFile (.spare k) then d.freeFrom fuel (k + 1) else .spare k

/-- The name itself if no file has it, else the first spare name that no file has. -/
def free (d : Disk) (n : Name) : Name := if d.isFile n then d.freeFrom d.nodes.length 1 else n

/-- Saves a text. The directories of its own name are made first, then the file is opened, and only
then the text is made: all that has been done stays if it cannot be. -/
def save (d : Disk) (n : Name) (text : Except Fault String) : Except Fault Unit × Disk :=
  if n.dirs.isEmpty then (.error .noSuchFile, d)
  else
    match d.makeDirs (d.start n) n.steps with
    | (.error f, d) => (.error f, d)
    | (.ok (), d) =>
      match d.openFile (d.free n) with
      | .error f => (.error f, d)
      | .ok (p, d) =>
        match text with
        | .error f => (.error f, d)
        | .ok t => (.ok (), d.fill p t.toUTF8)

/-! ## Contents -/

/-- The place of the device that every disk has. -/
def null : Path := ["dev", "null"]

/-- A disk with nothing on it but the working directory and the one device. -/
def empty (here : Path) : Disk :=
  ⟨(null, .device) :: (Path.trail [] (null.dropLast) ++ Path.trail [] here).map fun p => (p, .dir),
    here⟩

/-- A disk with some files and the directories they need. -/
def ofFiles (here : Path) (files : List (String × ByteArray)) : Disk :=
  files.foldl (fun d (name, a) =>
    let n := Name.ofString name
    let d := (d.makeDirs (d.start n) n.steps).2
    match d.openFile n with
    | .ok (p, d) => d.fill p a
    | .error _ => d) (empty here)

/-- The files below the working directory, by what leads to them from there. -/
def files (d : Disk) : List (Path × ByteArray) :=
  d.nodes.filterMap fun (p, n) =>
    match n with
    | .file a => if d.here.isPrefixOf p then some (p.drop d.here.length, a) else none
    | _ => none

end Disk

end StrandScript
