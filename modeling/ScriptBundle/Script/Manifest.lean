import ScriptBundle.Dependency.Reference
import ScriptBundle.Script.Declaration
import ScriptBundle.Text.Trivia

/-!
# What a script says about itself

A self-registering script starts with a wrapper function whose last parameter is a marker that the
loader fills in, as in `((cat, id, varName, autoVersion, Script) => …)();`.  Such a script declares
its dependencies in three lists.  The scalars of each declared literal are references; what cannot be
read becomes a diagnostic and nothing else.

## Main definitions

* `Script.parameterGroup?`: what stands in the first parentheses of a script.
* `Script.lastParameter?`: the text behind the last comma of a group.
* `Script.isSelfRegistering`: the script has such a wrapper.
* `Value.leaves`: the scalars of a value, in order.
* `Manifest`: the dependencies of a script and the diagnostics about them.
* `Manifest.ofSource`: the manifest of a script.

## Main results

* `leaves_array`, `leaves_object`: the leaves of a value are those of its parts, in order.
-/

namespace ScriptBundle

/-! ### The wrapper -/

namespace Script

/-- What stands between the parenthesis with which a script starts, behind blanks and comments, and
the first closing one. -/
def parameterGroup? (source : List Char) : Option (List Char) :=
  match Text.afterTrivia source with
  | '(' :: rest => if rest.contains ')' then some (rest.takeWhile (· != ')')) else none
  | _ => none

/-- The text behind the last comma of a group, if something stands before that comma. -/
def lastParameter? (group : List Char) : Option (List Char) :=
  match group.reverse.dropWhile (· != ',') with
  | _ :: _ :: _ => some (group.reverse.takeWhile (· != ',')).reverse
  | _ => none

/-- The script starts with a wrapper function of at least two parameters, of which the last one is
the marker. -/
def isSelfRegistering (source : List Char) (marker : String) : Bool :=
  match (parameterGroup? source).bind lastParameter? with
  | some last => Text.trim last == marker.toList
  | none => false

end Script

/-! ### Manifests -/

namespace Value

mutual

/-- The scalars of a value; the members of an object come in key order. -/
def leaves : Value → List Value
  | .array items => leavesOfItems items
  | .object members => leavesOfMembers members
  | v => [v]

/-- The scalars of the items of an array. -/
def leavesOfItems : List Value → List Value
  | [] => []
  | item :: rest => item.leaves ++ leavesOfItems rest

/-- The scalars of the members of an object. -/
def leavesOfMembers : List (String × Value) → List Value
  | [] => []
  | (_, value) :: rest => value.leaves ++ leavesOfMembers rest

end

theorem leaves_array (items : List Value) : (Value.array items).leaves = items.flatMap leaves := by
  rw [leaves]
  induction items with
  | nil => simp [leavesOfItems]
  | cons item rest ih => simp [leavesOfItems, ih]

theorem leaves_object (members : List (String × Value)) :
    (Value.object members).leaves = members.flatMap fun m => m.2.leaves := by
  rw [leaves]
  induction members with
  | nil => simp [leavesOfMembers]
  | cons m rest ih => simp [leavesOfMembers, ih]

end Value

/-- What a script says about itself. -/
structure Manifest where
  selfRegistering : Bool := false
  dependencies : Dependencies ModuleId := {}
  /-- What could not be read. -/
  diagnostics : List String := []
  deriving DecidableEq, Repr, Inhabited

namespace Manifest

/-- One more diagnostic. -/
def note (m : Manifest) (text : String) : Manifest :=
  { m with diagnostics := m.diagnostics ++ [text] }

/-- Take in one scalar of a declaration of some kind.  A reference with a kind of its own goes to
the list of that kind. -/
def addLeaf (c : Convention) (kind : DependencyKind) (m : Manifest) (leaf : Value) :
    Except Abandonment Manifest :=
  match Reference.ofValue c leaf with
  | .ok r => .ok { m with dependencies := m.dependencies.push (r.kind.getD kind) r.id }
  | .error (.error fault) => .ok (m.note fault.message)
  | .error (.abandoned reason) => .error reason

/-- The diagnostic of a literal that cannot be read. -/
def malformed (name : String) (source : List Char) (s : Stop) : String :=
  "malformed " ++ name ++ " literal at byte " ++ toString (Text.offsetOf source s.rest) ++ ": "
    ++ s.fault.message

/-- Take in one declaration of some kind. -/
def addDeclaration (c : Convention) (source : List Char) (kind : DependencyKind) (m : Manifest)
    (d : Declaration) : Except Abandonment Manifest :=
  match d.read with
  | .error s => .ok (m.note (malformed (kind.method c) source s))
  | .ok none => .ok m
  | .ok (some v) => v.leaves.foldlM (addLeaf c kind) m

/-- Take in all declarations of some kind. -/
def addKind (c : Convention) (source : List Char) (m : Manifest) (kind : DependencyKind) :
    Except Abandonment Manifest :=
  (Script.declarations (kind.method c).toList source).foldlM (addDeclaration c source kind) m

/-- The manifest of a script: the declarations method by method, and for each method in the order
of the script.  A script that is not self-registering declares nothing. -/
def ofSource (c : Convention) (source : List Char) : Except Abandonment Manifest :=
  if Script.isSelfRegistering source c.marker then
    DependencyKind.all.foldlM (addKind c source) { selfRegistering := true }
  else .ok {}

end Manifest

end ScriptBundle
