import ScriptBundle.Dependency.Reference
import ScriptBundle.Path
import ScriptBundle.Script.Manifest
import ScriptBundle.Timestamp

/-!
# Modules and sets of modules

A module is known by its id, or by its path if it is a file without a number.  A module file is called
`<number><sep>….<extension>`, where `sep` is one of `_ . -`.

A set has the modules of a bundle in the order of their keys, each with the modules of the set on which
it depends.  Modules are named by their places, so that every dependency is a module of the set.

## Main definitions

* `ModuleKey`: what a module is known by.
* `moduleNumber?`: the number in the name of a module file.
* `ScriptModule`: a script file that belongs to a bundle.
* `ModuleSet`: modules and their dependencies.
* `ModuleSet.ofModules`: the set of some modules, with the dependencies that they declare.
* `ModuleSet.sequence`: the places in a given order.
-/

namespace ScriptBundle

/-! ### Keys -/

/-- What a module is known by. -/
inductive ModuleKey where
  | numbered (id : ModuleId)
  | file (path : Path)
  deriving DecidableEq, Repr, Inhabited

namespace ModuleKey

/-- Numbered modules come before files. -/
def compare : ModuleKey → ModuleKey → Ordering
  | .numbered a, .numbered b => Ord.compare a b
  | .numbered _, .file _ => .lt
  | .file _, .numbered _ => .gt
  | .file p, .file q => Ord.compare p q

instance : Ord ModuleKey := ⟨ModuleKey.compare⟩

/-- How messages call a module. -/
def name : ModuleKey → String
  | .numbered id => id.name
  | .file path => path.text

/-- The id of a numbered module. -/
def id? : ModuleKey → Option ModuleId
  | .numbered id => some id
  | .file _ => none

end ModuleKey

/-! ### Names of module files -/

/-- The number in the name of a module file; nothing if the name has another form or the number
does not fit in 32 bits. -/
def moduleNumber? (extension fileName : String) : Option Nat := do
  let digits := fileName.toList.takeWhile Char.isDigit
  let rest := fileName.toList.dropWhile Char.isDigit
  let sep ← rest.head?
  let stem ← List.isSuffixOf? extension.toList rest
  let number := Numeral.digitsValue digits
  if !digits.isEmpty && (sep == '_' || sep == '.' || sep == '-') && stem.getLast? == some '.'
      && number ≤ Reference.maxNumber then
    some number
  else none

/-! ### Modules -/

/-- A script file that belongs to a bundle. -/
structure ScriptModule where
  key : ModuleKey
  path : Path
  category : String
  /-- The number at the start of the file name, if it has one. -/
  number : Option Nat
  source : String
  modified : Timestamp
  /-- The time at which the file was modified, as a version number. -/
  version : String
  /-- What the script says about itself. -/
  manifest : Manifest
  deriving Inhabited

/-- The line about a module in a listing of the load order. -/
structure OrderEntry where
  name : String
  path : Path
  version : String
  selfRegistering : Bool
  diagnostics : List String
  deriving DecidableEq, Repr

namespace ScriptModule

/-- The script registers itself with the loader. -/
def isSelfRegistering (m : ScriptModule) : Bool := m.manifest.selfRegistering

/-- The ids that the script declares, each with its kind. -/
def declared (m : ScriptModule) : List (DependencyKind × ModuleId) := m.manifest.dependencies.entries

/-- The line about a module in a listing of the load order. -/
def entry (m : ScriptModule) : OrderEntry :=
  ⟨m.key.name, m.path, m.version, m.isSelfRegistering, m.manifest.diagnostics⟩

end ScriptModule

/-! ### Sets of modules -/

/-- Modules and their dependencies among each other. -/
structure ModuleSet where
  size : Nat
  modules : Vector ScriptModule size
  /-- For each module, the places of the modules that it needs. -/
  links : Vector (Dependencies (Fin size)) size
  /-- The directory of the request. -/
  dir : Path
  /-- The name under which the request was made. -/
  name : Option String

namespace ModuleSet

/-- The place of a module id. -/
def placeOf? (modules : Vector ScriptModule n) (id : ModuleId) : Option (Fin n) :=
  modules.findFinIdx? fun m => (compare m.key (.numbered id)).isEq

/-- Put a place behind others, unless it is among them. -/
def addPlace (places : List (Fin n)) (u : Fin n) : List (Fin n) :=
  if u ∈ places then places else places ++ [u]

/-- The places of those ids that are there, each of them once. -/
def placesOf (modules : Vector ScriptModule n) (ids : List ModuleId) : List (Fin n) :=
  (ids.filterMap (placeOf? modules)).foldl addPlace []

/-- The set of some modules, with the dependencies that they declare.  Declared ids that are not
there are left out. -/
def ofModules (modules : List ScriptModule) (dir : Path) (name : Option String) : ModuleSet where
  size := modules.length
  modules := ⟨modules.toArray, by simp⟩
  links :=
    ⟨(modules.map fun m =>
      m.manifest.dependencies.mapLists (placesOf ⟨modules.toArray, by simp⟩)).toArray, by simp⟩
  dir := dir
  name := name

/-- The place of a module id. -/
def find? (s : ModuleSet) (id : ModuleId) : Option (Fin s.size) := placeOf? s.modules id

/-- The dependencies of a module with their kinds, the compile dependencies first. -/
def edges (s : ModuleSet) (u : Fin s.size) : List (DependencyKind × Fin s.size) :=
  (s.links.get u).entries

/-- Some module registers itself. -/
def hasSelfRegistering (s : ModuleSet) : Bool := s.modules.any ScriptModule.isSelfRegistering

/-- The places in a given order, or in the order of the set if the given one does not have as many
places. -/
def sequence (s : ModuleSet) (order : List (Fin s.size)) : List (Fin s.size) :=
  if order.length = s.size then order else List.finRange s.size

/-- The keys of the modules in a given order. -/
def keysIn (s : ModuleSet) (order : List (Fin s.size)) : List ModuleKey :=
  (s.sequence order).map fun u => (s.modules.get u).key

/-- The listing of the modules in a given order. -/
def entriesIn (s : ModuleSet) (order : List (Fin s.size)) : List OrderEntry :=
  (s.sequence order).map fun u => (s.modules.get u).entry

end ModuleSet

end ScriptBundle
