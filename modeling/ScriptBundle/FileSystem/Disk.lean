import ScriptBundle.FileSystem.Memory
import ScriptBundle.Literal.Number
import ScriptBundle.Path
import ScriptBundle.Text.Slice
import ScriptBundle.Timestamp

/-!
# Files on a disk

A tree of files and directories as an operating system keeps it, seen from a working directory.
Unlike a tree in memory it has directories of their own, it follows a path component by component,
and it refuses a path that leads through a file.

A listing tells what there is on a disk.  It names one file on a line, behind the time at which it was
modified: the seconds since the start of 1970 and perhaps a fraction, as in
`1700000000.25 js/0_types.js`.

## Main definitions

* `Disk`: what lies below the working directory.
* `DiskFault`: why the system refuses a call, with its message.
* `Disk.walk`: the place to which a path leads.
* `Disk.read`, `Disk.list`, `Disk.write`, `Disk.store`: use a path.
* `Disk.fileSystem`: the answers of a disk.
* `ListedFile.ofLine?`: reads a line of a listing.
-/

namespace ScriptBundle

/-- Why the system refuses a call. -/
inductive DiskFault where
  | missing
  | notDirectory
  | isDirectory
  | nameTooLong
  | zeroByte
  deriving DecidableEq, Repr

namespace DiskFault

/-- The message of the system. -/
def message : DiskFault → String
  | .missing => "No such file or directory (os error 2)"
  | .notDirectory => "Not a directory (os error 20)"
  | .isDirectory => "Is a directory (os error 21)"
  | .nameTooLong => "File name too long (os error 36)"
  | .zeroByte => "file name contained an unexpected NUL byte"

/-- The fault as an answer about a path. -/
def atPath (path : Path) : DiskFault → FileFault
  | .missing => .notFound path.text
  | fault => .io fault.message

end DiskFault

/-- What can lie at a place. -/
inductive DiskNode where
  | file (file : MemoryFile)
  | directory

/-- A place on a disk. -/
inductive DiskPlace where
  /-- A place below the working directory, by the names that lead there. -/
  | inside (names : List String)
  /-- A directory above the working directory. -/
  | above
  deriving DecidableEq, Repr

/-- What lies below the working directory, by the names that lead there. -/
structure Disk where
  nodes : List (List String × DiskNode) := []

namespace Disk

/-- The greatest number of bytes in a name, and in a path. -/
def maxName : Nat := 255

@[inherit_doc maxName]
def maxPath : Nat := 4095

/-- What lies at a place. -/
def node? (d : Disk) : DiskPlace → Option DiskNode
  | .above | .inside [] => some .directory
  | .inside names => Sorted.find? names d.nodes

/-- Go one step from a place, which must be a directory.  The new place need not exist. -/
def step (d : Disk) (place : DiskPlace) (part : List Char) : Except DiskFault DiskPlace :=
  match d.node? place with
  | none => .error .missing
  | some (.file _) => .error .notDirectory
  | some .directory =>
    if Path.isIdle part then .ok place
    else if part = ['.', '.'] then
      match place with
      | .above | .inside [] => .ok .above
      | .inside names => .ok (.inside names.dropLast)
    else if maxName < Text.byteCount part then .error .nameTooLong
    else
      match place with
      | .above => .error .missing
      | .inside names => .ok (.inside (names ++ [String.ofList part]))

/-- The parts of a path that the system follows from the working directory. -/
def partsOf (path : Path) : Except DiskFault (List (List Char)) :=
  let cs := path.text.toList
  if cs.contains '\x00' then .error .zeroByte
  else if maxPath < Text.byteCount cs then .error .nameTooLong
  else if cs.isEmpty || path.isAbsolute then .error .missing
  else .ok (cs.splitOn '/')

/-- The place to which a path leads.  A slash at its end asks for a directory. -/
def walk (d : Disk) (path : Path) : Except DiskFault DiskPlace := do
  (← partsOf path).foldlM d.step (.inside [])

/-- What lies at the end of a path. -/
def find (d : Disk) (path : Path) : Except DiskFault (DiskPlace × DiskNode) := do
  let place ← d.walk path
  match d.node? place with
  | none => .error .missing
  | some node => .ok (place, node)

/-- The content of a file. -/
def read (d : Disk) (path : Path) : Except DiskFault ByteArray := do
  match ← d.find path with
  | (_, .file file) => .ok file.content
  | (_, .directory) => .error .isDirectory

/-- The names of the entries of a place, in ascending order. -/
def namesAt (d : Disk) : DiskPlace → List String
  | .above => []
  | .inside names =>
    d.nodes.filterMap fun n => if n.1.dropLast = names then n.1.getLast? else none

/-- The names of the entries of a directory, in ascending order. -/
def list (d : Disk) (path : Path) : Except FileFault (List String) :=
  match d.find path with
  | .error fault => .error (fault.atPath path)
  | .ok (_, .file _) => .error (.wrongKind path.text "directory")
  | .ok (place, .directory) => .ok (d.namesAt place)

/-- Put a file at the end of a path.  The directory in which it lies must exist.  A path with a
slash at its end asks for a directory, so it is refused before its last name is looked at. -/
def write (d : Disk) (path : Path) (file : MemoryFile) : Except DiskFault Disk := do
  let parts ← partsOf path
  let named := (parts.reverse.dropWhile List.isEmpty).reverse
  let home ← (named.dropLast ++ [[]]).foldlM d.step (.inside [])
  if named.length < parts.length then .error .isDirectory
  else
    let place ← d.step home (named.getLastD [])
    match d.node? place, place with
    | some .directory, _ | _, .above => .error .isDirectory
    | _, .inside names => .ok ⟨Sorted.insert names (.file file) d.nodes⟩

/-- Go one step, making a directory where there is nothing. -/
def makeStep : Disk × DiskPlace → List Char → Except DiskFault (Disk × DiskPlace)
  | (d, place), part => do
    let next ← d.step place part
    match d.node? next, next with
    | none, .inside names => .ok (⟨Sorted.insert names .directory d.nodes⟩, next)
    | _, _ => .ok (d, next)

/-- Put a file at the end of a path, making the directories that lead there. -/
def store (d : Disk) (path : Path) (file : MemoryFile) : Except DiskFault Disk := do
  let homes := ((← partsOf path).reverse.dropWhile Path.isIdle).tail.reverse
  let (d, _) ← homes.foldlM makeStep (d, .inside [])
  d.write path file

/-- The answers of a disk. -/
def fileSystem (d : Disk) : FileSystem
  | .content path => (d.read path).mapError (DiskFault.atPath path)
  | .entries path => d.list path
  | .modified path =>
    match d.find path with
    | .ok (_, .file file) => .ok file.modified
    | .ok (_, .directory) => .ok .epoch
    | .error fault => .error (fault.atPath path)
  | .isFile path => match d.find path with
    | .ok (_, .file _) => true
    | _ => false
  | .isDirectory path => match d.find path with
    | .ok (_, .directory) => true
    | _ => false

end Disk

/-! ### Listings of files -/

/-- The time that a decimal number of seconds stands for; nine places of the fraction count. -/
def Timestamp.ofNumeral? (n : Numeral) : Option Timestamp :=
  let places := (n.fraction.getD []).take 9
  let nanos := Numeral.digitsValue places * Nat.pow 10 (9 - places.length)
  let seconds : Int := Numeral.digitsValue n.whole
  if n.whole.isEmpty || n.exponent.isSome || !n.tail.isEmpty then none
  else if n.sign = ['-'] then
    if nanos = 0 then some ⟨-seconds, 0⟩ else some ⟨-seconds - 1, 1000000000 - nanos⟩
  else some ⟨seconds, nanos⟩

/-- A file that a listing names. -/
structure ListedFile where
  path : Path
  modified : Timestamp
  deriving DecidableEq, Repr

namespace ListedFile

/-- The file that a line names, given without its line feed. -/
def ofLine? (line : List Char) : Option ListedFile :=
  match Timestamp.ofNumeral? (Numeral.scan line).1, (Numeral.scan line).2 with
  | some modified, ' ' :: path => some ⟨⟨String.ofList path⟩, modified⟩
  | _, _ => none

end ListedFile

end ScriptBundle
