import ScriptBundle.FileSystem.Access
import ScriptBundle.Sorted

/-!
# Files in memory

A tree of files that is kept in memory.  A file is stored under a key, the normal form of its
path.  There are no directories as such: a path is a directory if some key goes on behind it.

## Main definitions

* `Path.key`: the key of a path.
* `MemoryFile`, `MemoryTree`: a stored file, and the files by their keys.
* `MemoryTree.write`, `MemoryTree.touch`: store a file, and change the time of one.
* `MemoryTree.fileSystem`: the answers of a tree.
-/

namespace ScriptBundle

namespace Path

/-- A name as it stands in a key: backslashes become slashes. -/
def keyName (name : String) : List Char :=
  name.toList.map fun c => if c = '\\' then '/' else c

/-- Go on along one component.  The names so far come last one first; a step upwards takes back
the last one, if there is one. -/
def keyStep (names : List (List Char)) : PathComponent → List (List Char)
  | .name name => keyName name :: names
  | .up => names.tail
  | .root | .here => names

/-- The key of a path: its names with a slash between them, after a slash if the path is
absolute. -/
def key (p : Path) : String :=
  let names := (p.components.foldl keyStep []).reverse
  String.ofList ((if p.isAbsolute then ['/'] else []) ++ ['/'].intercalate names)

end Path

/-- A stored file. -/
structure MemoryFile where
  content : ByteArray
  modified : Timestamp := .epoch

/-- Files by their keys, in ascending order. -/
structure MemoryTree where
  files : List (String × MemoryFile) := []

namespace MemoryTree

/-- Store a file, in the place of one that has the same key. -/
def write (t : MemoryTree) (path : Path) (file : MemoryFile) : MemoryTree :=
  ⟨Sorted.insert path.key file t.files⟩

/-- A tree of files, all from the start of time. -/
def ofFiles (files : List (Path × ByteArray)) : MemoryTree :=
  files.foldl (fun t f => t.write f.1 ⟨f.2, .epoch⟩) {}

/-- The file that a path stands for. -/
def file? (t : MemoryTree) (path : Path) : Except FileFault MemoryFile :=
  match Sorted.find? path.key t.files with
  | some file => .ok file
  | none => .error (.notFound path.key)

/-- Change the time of a stored file. -/
def touch (t : MemoryTree) (path : Path) (modified : Timestamp) : Except FileFault MemoryTree :=
  (t.file? path).map fun file => t.write path { file with modified }

/-- The characters with which the keys behind a key start. -/
def below (key : String) : List Char :=
  let cs := key.toList
  if cs.isEmpty || cs.getLast? == some '/' then cs else cs ++ ['/']

/-- What follows in those keys that go on behind a key. -/
def tails (t : MemoryTree) (key : String) : List (List Char) :=
  t.files.filterMap fun f => List.isPrefixOf? (below key) f.1.toList

/-- The names of the entries of a directory, in ascending order. -/
def entries (t : MemoryTree) (path : Path) : Except FileFault (List String) :=
  let key := path.key
  if Sorted.contains key t.files then .error (.wrongKind key "directory")
  else
    let names := (t.tails key).map (·.takeWhile (· != '/'))
    match Sorted.distinct ((names.filter (!·.isEmpty)).map String.ofList) with
    | [] => .error (.notFound key)
    | names => .ok names

/-- The answers of a tree. -/
def fileSystem (t : MemoryTree) : FileSystem
  | .content path => (t.file? path).map MemoryFile.content
  | .entries path => t.entries path
  | .modified path => (t.file? path).map MemoryFile.modified
  | .isFile path => Sorted.contains path.key t.files
  | .isDirectory path => !(t.tails path.key).isEmpty

end MemoryTree

end ScriptBundle
