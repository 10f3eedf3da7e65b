import ScriptBundle.BitSet.Basic
import ScriptBundle.Closure
import ScriptBundle.LoadOrder
import ScriptBundle.ModuleSet
import ScriptBundle.Text.Quoted
import ScriptBundle.Weight.Basic
import ScriptBundle.Weight.Walk

/-!
# Bundles and graphs

A bundle is the text of all modules in their load order.  If some of them register themselves, the
loader script comes first and a call of the loader last.  A self-registering script ends with a call
of its wrapper without arguments; in a bundle the call gets arguments that tell the script who it is.

The graph of a set of modules has their dependencies in the DOT language.

## Main definitions

* `inject`: put arguments into the last empty call of a script.
* `moduleArguments`, `loaderArguments`: the arguments of a module and of the loader.
* `ScriptModule.body`: what a bundle contains of a module.
* `Bundle`: a text with what it was made of.
* `ModuleSet.emit`: the bundle of a set of modules.
* `Resolution`: a set of modules with its weights and its load order.
* `ModuleSet.label`, `ModuleSet.dot`: the name of a module as a node, and the graph.
-/

namespace ScriptBundle

/-! ### Wrapper arguments -/

/-- A script cut inside its last empty call, between the parentheses.  The script is given
backwards; what was passed on the way comes in front of `after`. -/
def cutCall (after : List Char) : List Char → Option (List Char × List Char)
  | [] => none
  | ';' :: ')' :: '(' :: before => some (('(' :: before).reverse, ')' :: ';' :: after)
  | c :: before => cutCall (c :: after) before

/-- The script with arguments in its last empty call; nothing if it has none. -/
def inject (source arguments : List Char) : Option (List Char) :=
  (cutCall [] source.reverse).map fun p => p.1 ++ arguments ++ p.2

/-- The arguments of a module: its category, its number, an empty name, its version, and the
loader's handle. -/
def moduleArguments (c : Convention) (m : ScriptModule) : List Char :=
  [',', ' '].intercalate
    [Text.json m.category.toList, m.number.elim "undefined".toList (Nat.toDigits 10), Text.json [],
      Text.json m.version.toList, c.loaderVariable.toList ++ '.' :: c.marker.toList]

/-- The argument of the loader: the name under which the request was made. -/
def loaderArguments (name : Option String) : List Char :=
  name.elim "undefined".toList fun n => Text.json n.toList

/-- A script with arguments in its last empty call, or as it is if it has none. -/
def withArguments (source : String) (arguments : List Char) : String :=
  (inject source.toList arguments).elim source String.ofList

/-- What a bundle contains of a module. -/
def ScriptModule.body (c : Convention) (m : ScriptModule) : String :=
  if m.isSelfRegistering then withArguments m.source (moduleArguments c m) else m.source

/-! ### Bundles -/

/-- A text with what it was made of. -/
structure Bundle where
  text : String
  /-- The modules in their load order. -/
  order : List ModuleKey
  /-- Where the loader script was found, if it was needed. -/
  loader : Option Path
  /-- The latest time at which one of the files was modified. -/
  newest : Timestamp
  deriving DecidableEq, Repr

/-- The time of the newest file, as the hypertext protocol writes it. -/
def Bundle.lastModified (b : Bundle) : String := String.ofList b.newest.httpDate

/-- The loader script. -/
structure Loader where
  path : Path
  source : String
  modified : Timestamp

namespace ModuleSet

/-- The loader script in the directory of the request, if it is needed and if there is one. -/
def loader? (c : Convention) (s : ModuleSet) : BundleAccess (Option Loader) := do
  if s.hasSelfRegistering then
    let path := s.dir.join ⟨c.loaderFile⟩
    match ← BundleAccess.text? path with
    | none => return none
    | some (source, modified) => return some ⟨path, source, modified⟩
  else return none

/-- The call at the end of a bundle. -/
def trailer? (c : Convention) (s : ModuleSet) : Option String :=
  if s.hasSelfRegistering then some (c.loaderVariable ++ "." ++ c.loaderEntry ++ "();") else none

/-- The parts of a bundle: the loader, the modules and the call at the end. -/
def parts (c : Convention) (s : ModuleSet) (loader : Option Loader) (order : List (Fin s.size)) :
    List String :=
  (loader.map fun l => withArguments l.source (loaderArguments s.name)).toList
    ++ (s.sequence order).map (fun u => (s.modules.get u).body c) ++ (s.trailer? c).toList

/-- The times at which the files of a bundle were modified. -/
def times (s : ModuleSet) (loader : Option Loader) (order : List (Fin s.size)) : List Timestamp :=
  (loader.map Loader.modified).toList ++ (s.sequence order).map fun u => (s.modules.get u).modified

/-- The bundle of a set of modules in a given order.  Each part starts on a new line. -/
def emit (c : Convention) (s : ModuleSet) (order : List (Fin s.size)) : BundleAccess Bundle := do
  let loader ← s.loader? c
  return {
    text := String.join ((s.parts c loader order).map fun part => "\n" ++ part)
    order := s.keysIn order
    loader := loader.map Loader.path
    newest := (s.times loader order).foldl Timestamp.later .epoch }

end ModuleSet

/-- A set of modules with its weights and its load order. -/
structure Resolution where
  set : ModuleSet
  weights : Weights set.size
  order : List (Fin set.size)

/-- The weights and the load order of a set of modules. -/
def ModuleSet.resolve (s : ModuleSet) : Except (Failure BundleFault) Resolution :=
  (s.weigh).map fun w => ⟨s, w, s.loadOrder w⟩

/-- All modules that a request needs, with their weights and their load order. -/
def Resolution.ofRequest (c : Convention) (request : Request) : BundleAccess Resolution := do
  let s ← ModuleSet.ofRequest c request
  match s.resolve with
  | .ok r => return r
  | .error failure => throw failure

/-- The bundle of a request. -/
def Bundle.ofRequest (c : Convention) (request : Request) : BundleAccess Bundle := do
  let r ← Resolution.ofRequest c request
  r.set.emit c r.order

/-! ### Dependency graphs -/

namespace ModuleSet

/-- The name of a module as a node: its category and number, its bit and its weights. -/
def label (s : ModuleSet) (w : Weights s.size) (u : Fin s.size) : List Char :=
  let m := s.modules.get u
  let number := m.number.elim ['?'] (Nat.toDigits 10)
  '"' :: m.category.toList ++ '-' :: number ++ [' ', '['] ++ (w.bits.get u).hex ++ [',', ' ']
    ++ (w.dependents.get u).hex ++ [',', ' '] ++ (w.compileDependents.get u).hex ++ [']', '"']

/-- The line of an edge. -/
def edgeLine (s : ModuleSet) (w : Weights s.size) (u : Fin s.size)
    (e : DependencyKind × Fin s.size) : List Char :=
  '\n' :: '\t' :: s.label w u ++ " -> ".toList ++ s.label w e.2 ++ " [label=\"".toList
    ++ e.1.name.toList ++ "\"]".toList

/-- The lines of a module: its edges, or the module alone if it has none. -/
def nodeLines (s : ModuleSet) (w : Weights s.size) (u : Fin s.size) : List Char :=
  if (s.links.get u).isEmpty then '\n' :: '\t' :: s.label w u
  else (s.edges u).flatMap (s.edgeLine w u)

/-- The graph of a set, from the last module of the load order to the first one. -/
def dot (s : ModuleSet) (w : Weights s.size) (order : List (Fin s.size)) : List Char :=
  "digraph G \x7b".toList ++ (s.sequence order).reverse.flatMap (s.nodeLines w) ++ ['\n', '\x7d']

end ModuleSet

end ScriptBundle
