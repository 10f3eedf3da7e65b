import ScriptBundle.BitSet.Basic
import ScriptBundle.Convention
import ScriptBundle.Dependency.Reference
import ScriptBundle.Path
import ScriptBundle.Sorted

/-!
# Requests

A request path `dir/[name:]mask.ext` asks for modules of the default category in a directory; any
other path asks for a single file.

## Main definitions

* `Selection`: every module of a category, those of a set of bits, or those with listed numbers.
* `Selection.ofMask?`: the selection that a mask in a request stands for.
* `Request`: a single file, or selections by category in a directory.
* `Request.parse`: the request that a path under a root directory stands for.
* `Request.ofIds`: the request for given module ids.
* `Request.directory`, `Request.name?`, `Request.describe`: views of a request.

## Main results

* `mem_insertNumber`: what is in a list of numbers into which one has been put.
-/

namespace ScriptBundle

/-- Put a number into an ascending list of numbers, unless it is there. -/
def insertNumber (n : Nat) : List Nat → List Nat
  | [] => [n]
  | m :: ms => if n < m then n :: m :: ms else if n = m then m :: ms else m :: insertNumber n ms

theorem mem_insertNumber {n k : Nat} (ms : List Nat) :
    k ∈ insertNumber n ms ↔ k = n ∨ k ∈ ms := by
  induction ms with
  | nil => simp [insertNumber]
  | cons m ms ih =>
    unfold insertNumber
    split
    · simp
    · split
      · next h => simp [h]
      · simp only [List.mem_cons, ih]
        grind

/-- Which modules of a category are wanted. -/
inductive Selection where
  | every
  /-- The modules whose numbers are in the set. -/
  | bits (set : BitSet)
  /-- The modules with the listed numbers, in ascending order. -/
  | numbers (ns : List Nat)

namespace Selection

/-- The module with the number `n` is wanted. -/
def includes : Selection → Nat → Bool
  | .every, _ => true
  | .bits set, n => set.contains n
  | .numbers ns, n => ns.contains n

/-- The selection that a mask stands for: the wildcard, or the binary ones of a decimal number. -/
def ofMask? (c : Convention) (mask : List Char) : Option Selection :=
  if mask = c.wildcard.toList then some .every else (BitSet.ofDecimal? mask).map .bits

/-- How a message shows a selection. -/
def describe : Selection → List Char
  | .every => ['*']
  | .bits set => set.listing
  | .numbers ns => BitSet.braced ns

end Selection

/-! ### What a path asks for -/

/-- What is to be bundled. -/
inductive Request where
  /-- A single file. -/
  | file (path : Path)
  /-- The modules of a directory that are selected, category by category.  The name is the one
  under which the request was made. -/
  | modules (dir : Path) (name : Option String) (selections : List (String × Selection))

/-- A cause for which a request path is refused. -/
inductive RequestFault where
  | parentComponent
  | noFileName
  deriving DecidableEq, Repr

/-- The wording of a fault. -/
def RequestFault.message : RequestFault → String
  | .parentComponent => "parent directory components are not allowed"
  | .noFileName => "request does not name a file"

namespace Request

/-- A text cut at its last colon, if it has one. -/
def cutLastColon (cs : List Char) : Option (List Char × List Char) :=
  match cs.reverse.dropWhile (· != ':') with
  | [] => none
  | _ :: before => some (before.reverse, (cs.reverse.takeWhile (· != ':')).reverse)

/-- A file name without the point and the extension, if it ends with them. -/
def stem? (c : Convention) (fileName : List Char) : Option (List Char) :=
  (List.isSuffixOf? c.extension.toList fileName).bind (List.isSuffixOf? ['.'])

/-- The name and the selection for which a file name stands, if it has the form
`[name:]mask.ext`. -/
def ofFileName? (c : Convention) (fileName : List Char) : Option (Option String × Selection) := do
  let stem ← stem? c fileName
  match cutLastColon stem with
  | none => (Selection.ofMask? c stem).map fun s => (none, s)
  | some (name, mask) =>
    if name.isEmpty || name.contains ':' then none
    else (Selection.ofMask? c mask).map fun s => (some (String.ofList name), s)

/-- The request that a path under `root` stands for.  Slashes at its start do not count, and steps
upwards are not allowed. -/
def parse (root : Path) (c : Convention) (text : String) : Except RequestFault Request :=
  let relative : Path := ⟨String.ofList (text.toList.dropWhile (· == '/'))⟩
  if relative.components.contains .up then .error .parentComponent
  else
    match relative.fileName? with
    | none => .error .noFileName
    | some fileName =>
      match ofFileName? c fileName.toList with
      | none => .ok (.file (root.join relative))
      | some (name, selection) =>
        let dir := (relative.parent?).elim root root.join
        .ok (.modules dir name [(c.defaultCategory, selection)])

/-- Ask for one more module id. -/
def addId (selections : List (String × Selection)) (id : ModuleId) : List (String × Selection) :=
  let numbers := match Sorted.find? id.category selections with
    | some (.numbers ns) => ns
    | _ => []
  Sorted.insert id.category (.numbers (insertNumber id.number numbers)) selections

/-- The request for the given module ids in a directory. -/
def ofIds (dir : Path) (ids : List ModuleId) : Request := .modules dir none (ids.foldl addId [])

/-- The directory in which dependencies are looked up. -/
def directory : Request → Path
  | .file path => path.parent?.getD ⟨""⟩
  | .modules dir _ _ => dir

/-- The name under which a request was made. -/
def name? : Request → Option String
  | .file _ => none
  | .modules _ name _ => name

/-- How a message shows a request. -/
def describe : Request → String
  | .file path => path.text
  | .modules dir name selections =>
    dir.text ++ (name.elim "" fun n => " as '" ++ n ++ "'")
      ++ String.join (selections.map fun s => " " ++ s.1 ++ ":" ++ String.ofList s.2.describe)

end Request

end ScriptBundle
