import StrandScript.CommandLine.Session

/-!
# The command line

Reads the program file, runs the session and writes out what it printed and saved.
-/

namespace StrandScript.CommandLine

/-- The contents of a file, if it can be read. -/
def contents? (file : String) : IO (Option ByteArray) := do
  try
    return some (← IO.FS.readBinFile file)
  catch _ => return none

/-- The drawings saved so far, from number `n` on. -/
partial def drawings (n : Nat) : IO (List (String × ByteArray)) := do
  let name := (if n = 0 then Name.standard else Name.spare n).text
  match ← contents? name with
  | none => return []
  | some bytes => return (name, bytes) :: (← drawings (n + 1))

/-- The program file of some arguments. -/
def fileOf (args : List String) : String :=
  match Arguments.parse args with
  | .request r => r.file.getD ""
  | _ => ""

end StrandScript.CommandLine

open StrandScript StrandScript.CommandLine in
def main (args : List String) : IO UInt32 := do
  let file := fileOf args
  let program := (← contents? file).toList.map fun bytes => (file, bytes)
  let before := Disk.ofFiles [] (program ++ (← drawings 0))
  let outcome := session before args
  (← IO.getStdout).putStr outcome.printed
  for (path, bytes) in outcome.disk.files.drop before.files.length do
    IO.FS.createDirAll (Path.text path.dropLast)
    IO.FS.writeBinFile (Path.text path) bytes
  match outcome.result with
  | .ok code => return code.toUInt32
  | .error f =>
    (← IO.getStderr).putStrLn ((f.message?).getD "the program failed")
    return 1
