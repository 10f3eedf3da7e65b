import ScriptBundle.CommandLine.Run
import ScriptBundle.FileSystem.Disk

/-!
# The program

The program is called in the directory that is its working directory, with a listing of the files
below on its standard input, for instance `find * -type f -printf '%T@ %p\n'`.
-/

namespace ScriptBundle

/-- The lines of a stream, without their line feeds. -/
partial def readLines (input : IO.FS.Stream) : IO (List (List Char)) := do
  let line ← input.getLine
  if line.isEmpty then return []
  return line.toList.takeWhile (· != '\n') :: (← readLines input)

/-- A disk with one more file, as far as it can be read and has a place there. -/
def addListed (d : Disk) (f : ListedFile) : IO Disk := do
  match ← (IO.FS.readBinFile f.path.text).toBaseIO with
  | .error _ => return d
  | .ok content => return (d.store f.path ⟨content, f.modified⟩).toOption.getD d

/-- The files that the standard input lists. -/
def readDisk : IO Disk := do
  let lines ← readLines (← IO.getStdin)
  (lines.filterMap ListedFile.ofLine?).foldlM addListed {}

/-- The outcome of a run; files are read only if something is asked about them. -/
def answered (run : Access Outcome) : IO Outcome := do
  match run with
  | .done outcome => return outcome
  | asking => return asking.run (← readDisk).fileSystem

/-- Write what a run leaves to write. -/
def settle : Outcome → IO Finish
  | .finish f => return f
  | .write path text => do
    match ← (IO.FS.writeFile path.text text).toBaseIO with
    | .ok _ => return { status := 0 }
    | .error e => return .unwritten (toString e)

end ScriptBundle

open ScriptBundle in
/-- The program with its arguments; the result is the exit status. -/
def main (arguments : List String) : IO UInt32 := do
  let f ← settle (← answered (Outcome.ofArguments arguments))
  IO.print f.output
  IO.eprint f.errors
  return UInt32.ofNat f.status
