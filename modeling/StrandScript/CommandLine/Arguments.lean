/-!
# Command-line arguments

One program file and a few options. Long options may be shortened as long as they stay unambiguous,
short options without a value may be joined, a value may follow its option after an equals sign, and
after `--` every argument is a file name.

* `Arguments.classify`: what each argument is, before any is used up.
* `Arguments.parse`: the request that the arguments make.
-/

namespace StrandScript.Arguments

/-- The options. -/
inductive Opt where
  | help | print | verbose | svg | theme
deriving Repr, DecidableEq

/-- The spellings of the options. -/
def spellings : List (String × Opt) :=
  [("-h", .help), ("--help", .help), ("-p", .print), ("-v", .verbose), ("--svg", .svg),
    ("--theme", .theme)]

/-- The option of a spelling. -/
def lookup? (s : String) : Option Opt := (spellings.find? fun o => o.1 == s).map (·.2)

/-- What an argument is: a name, the separator, an option with the value joined to it, or an option
that does not exist. -/
inductive Arg where
  | name (s : String)
  | separator
  | option (o : Opt) (spelling : String) (joined : Option String)
  | unknown
deriving Repr, DecidableEq

/-- A text before and after its first equals sign, if it has one. -/
def splitEquals (s : String) : String × Option String :=
  let cs := s.toList
  let key := cs.takeWhile (· != '=')
  match cs.dropWhile (· != '=') with
  | [] => (s, none)
  | _ :: rest => (String.ofList key, some (String.ofList rest))

/-- The options that an argument may stand for, shortened or with a value joined. -/
def matching (s : String) : List Arg :=
  match s.toList with
  | '-' :: '-' :: _ =>
    let (key, value) := splitEquals s
    spellings.filterMap fun (t, o) => if key.isPrefixOf t then some (.option o t value) else none
  | '-' :: c :: rest =>
    spellings.filterMap fun (t, o) =>
      if t == String.ofList ['-', c] then some (.option o t (some (String.ofList rest)))
      else if s.isPrefixOf t then some (.option o t none)
      else none
  | _ => []

/-- Whether a text is a negative number: digits after the minus sign, or a point with digits after
it. -/
def isNegative (s : String) : Bool :=
  match s.toList with
  | '-' :: cs =>
    match cs.dropWhile Char.isDigit with
    | [] => !cs.isEmpty
    | '.' :: rest => !rest.isEmpty && rest.all Char.isDigit
    | _ => false
  | _ => false

/-- What an argument before the separator is; nothing if it may stand for several options. -/
def classifyOne (s : String) : Option Arg :=
  if !s.startsWith "-" then some (.name s)
  else
    match lookup? s with
    | some o => some (.option o s none)
    | none =>
      if s.length == 1 then some (.name s)
      else
        match splitEquals s with
        | (key, some value) =>
          match lookup? key with
          | some o => some (.option o key (some value))
          | none => several
        | (_, none) => several
where
  /-- What an argument is that spells no option in full. -/
  several : Option Arg :=
    match matching s with
    | [a] => some a
    | _ :: _ => none
    | [] => some (if isNegative s || s.toList.contains ' ' then .name s else .unknown)

/-- What each argument is. -/
def classify : List String → Option (List Arg)
  | [] => some []
  | s :: ss =>
    if s == "--" then some (.separator :: ss.map .name)
    else do
      let a ← classifyOne s
      return a :: (← classify ss)

/-- What the command line asks for. -/
structure Request where
  file : Option String
  print : Bool
  verbose : Bool
  svg : Bool
  theme : String
deriving Repr, DecidableEq

/-- Nothing asked for yet. -/
def Request.start : Request := ⟨none, false, false, false, "default"⟩

/-- How reading the arguments ends: with a request, with the help, or with a complaint about the
usage. -/
inductive Verdict where
  | request (r : Request)
  | help
  | usage
deriving Repr, DecidableEq

/-- The options joined in one argument, the last one perhaps with a value: each letter after the
first is an option of its own. Nothing if a value is joined to an option that takes none. -/
def joinedOptions : Opt → String → Option String → Nat → Option (List (Opt × Option String))
  | o, _, none, _ => some [(o, none)]
  | .theme, _, some v, _ => some [(.theme, some v)]
  | _, _, some _, 0 => none
  | o, spelling, some v, fuel + 1 =>
    match spelling.toList, v.toList with
    | '-' :: c :: _, d :: rest =>
      if c == '-' then none
      else
        let next := String.ofList ['-', d]
        match lookup? next with
        | none => none
        | some p =>
          let value := if rest.isEmpty then none else some (String.ofList rest)
          (joinedOptions p next value fuel).map ((o, none) :: ·)
    | _, _ => none

/-- A request after an option that has its value. -/
def Request.with (r : Request) : Opt → Option String → Request
  | .print, _ => { r with print := true }
  | .verbose, _ => { r with verbose := true }
  | .svg, _ => { r with svg := true }
  | .theme, some v => { r with theme := v }
  | _, _ => r

/-- A request after the options of one argument; nothing if one of them asks for help. -/
def Request.withAll (r : Request) : List (Opt × Option String) → Option Request
  | [] => some r
  | (.help, _) :: _ => none
  | (o, v) :: rest => (r.with o v).withAll rest

/-- Drops the separators in front. -/
def dropSeparators : List Arg → List Arg
  | .separator :: rest => dropSeparators rest
  | as => as

/-- Drops everything in front of the next option. -/
def dropToOption : List Arg → List Arg
  | .name _ :: rest | .separator :: rest => dropToOption rest
  | as => as

/-- Uses up the arguments in order. `extra` says that some argument had no use. -/
def consume : Nat → Request → Bool → List Arg → Verdict
  | 0, _, _, _ => .usage
  | _, r, extra, [] => if extra || r.file.isNone then .usage else .request r
  | fuel + 1, r, _, .unknown :: rest => consume fuel r true rest
  | fuel + 1, r, extra, .option o spelling joined :: rest =>
    match joinedOptions o spelling joined ((joined.map String.length).getD 0 + 1) with
    | none => .usage
    | some [(.theme, none)] =>
      match rest with
      | .name v :: rest => consume fuel (r.with .theme (some v)) extra rest
      | _ => .usage
    | some os =>
      match r.withAll os with
      | none => .help
      | some r => consume fuel r extra rest
  | fuel + 1, r, extra, as =>
    match r.file, dropSeparators as with
    | none, .name f :: rest => consume fuel { r with file := some f } extra (dropSeparators rest)
    | _, _ => consume fuel r true (dropToOption as)

/-- The request that some arguments make. -/
def parse (args : List String) : Verdict :=
  match classify args with
  | none => .usage
  | some as => consume (2 * as.length + 1) .start false as

end StrandScript.Arguments
