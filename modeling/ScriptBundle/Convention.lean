/-!
# Conventions, and kinds of dependencies

The names that scripts, requests and loaders agree on, among them the methods by which a script
declares its dependencies of each kind.

## Main definitions

* `Convention`: these names, with their usual values.
* `Convention.canonical`: the category that a name in a reference stands for.
* `DependencyKind`: what one module needs another one for.
* `Dependencies`: three lists, one for each kind.
* `Dependencies.entries`: all entries with their kinds, the compile dependencies first.
-/

namespace ScriptBundle

/-- The names that scripts, requests and loaders agree on. -/
structure Convention where
  /-- The extension of module files, without its point. -/
  extension : String := "js"
  /-- The category of the modules that lie in the requested directory itself. -/
  defaultCategory : String := "."
  /-- Another name of the default category in references. -/
  defaultAlias : String := "_"
  /-- The mask that selects every module. -/
  wildcard : String := "*"
  /-- The last wrapper parameter of a self-registering module. -/
  marker : String := "Script"
  /-- The method that declares compile dependencies. -/
  compileMethod : String := "setCompileDependencies"
  /-- The method that declares launch dependencies. -/
  launchMethod : String := "setLaunchDependencies"
  /-- The method that declares optional dependencies. -/
  optionalMethod : String := "setOptionalDependencies"
  /-- The script in front of bundles with self-registering modules. -/
  loaderFile : String := "Loader.js"
  /-- The variable that the loader script defines. -/
  loaderVariable : String := "_jsUtilsLoader"
  /-- The loader's function that the end of a bundle calls. -/
  loaderEntry : String := "exec"
  deriving DecidableEq, Repr, Inhabited

/-- The category that a name in a reference stands for. -/
def Convention.canonical (c : Convention) (category : String) : String :=
  if category = c.defaultAlias then c.defaultCategory else category

theorem Convention.canonical_canonical (c : Convention) (category : String) :
    c.canonical (c.canonical category) = c.canonical category := by
  unfold canonical
  by_cases h : category = c.defaultAlias <;> simp [h]

/-! ### Kinds of dependencies -/

/-- What one module needs another one for. -/
inductive DependencyKind where
  /-- Needed first of all; these dependencies may form no cycle. -/
  | compile
  /-- Needed at launch; cycles are allowed. -/
  | launch
  /-- Used if present. -/
  | optional
  deriving DecidableEq, Repr

namespace DependencyKind

/-- All kinds, in the order in which they are looked at. -/
def all : List DependencyKind := [.compile, .launch, .optional]

/-- The name of a kind. -/
def name : DependencyKind → String
  | .compile => "compile"
  | .launch => "launch"
  | .optional => "optional"

/-- The kind with the given name. -/
def ofName? (s : String) : Option DependencyKind :=
  if s = "compile" then some .compile
  else if s = "launch" then some .launch
  else if s = "optional" then some .optional
  else none

/-- A missing dependency of this kind is an error. -/
def isMandatory : DependencyKind → Bool
  | .optional => false
  | _ => true

/-- The method that declares dependencies of this kind. -/
def method (c : Convention) : DependencyKind → String
  | .compile => c.compileMethod
  | .launch => c.launchMethod
  | .optional => c.optionalMethod

end DependencyKind

/-- Three lists, one for each kind of dependency. -/
structure Dependencies (α : Type) where
  compile : List α := []
  launch : List α := []
  optional : List α := []
  deriving DecidableEq, Repr, Inhabited

namespace Dependencies

/-- The list of one kind. -/
def get (d : Dependencies α) : DependencyKind → List α
  | .compile => d.compile
  | .launch => d.launch
  | .optional => d.optional

/-- One more entry at the end of the list of a kind. -/
def push (d : Dependencies α) (kind : DependencyKind) (a : α) : Dependencies α :=
  match kind with
  | .compile => { d with compile := d.compile ++ [a] }
  | .launch => { d with launch := d.launch ++ [a] }
  | .optional => { d with optional := d.optional ++ [a] }

/-- Apply a function to each of the lists. -/
def mapLists (f : List α → List β) (d : Dependencies α) : Dependencies β :=
  ⟨f d.compile, f d.launch, f d.optional⟩

/-- All entries with their kinds, the compile dependencies first and the optional ones last. -/
def entries (d : Dependencies α) : List (DependencyKind × α) :=
  DependencyKind.all.flatMap fun kind => (d.get kind).map fun a => (kind, a)

/-- How many entries there are. -/
def count (d : Dependencies α) : Nat := d.compile.length + d.launch.length + d.optional.length

/-- There is no entry. -/
def isEmpty (d : Dependencies α) : Bool := d.count == 0

theorem get_push_self (d : Dependencies α) (kind : DependencyKind) (a : α) :
    (d.push kind a).get kind = d.get kind ++ [a] := by
  cases kind <;> rfl

theorem get_push_of_ne (d : Dependencies α) {kind other : DependencyKind} (h : other ≠ kind)
    (a : α) : (d.push kind a).get other = d.get other := by
  cases kind <;> cases other <;> first | rfl | exact absurd rfl h

theorem mem_entries {d : Dependencies α} {kind : DependencyKind} {a : α} :
    (kind, a) ∈ d.entries ↔ a ∈ d.get kind := by
  simp only [entries, List.mem_flatMap, List.mem_map, Prod.mk.injEq]
  constructor
  · rintro ⟨kind, -, a, ha, rfl, rfl⟩
    exact ha
  · intro ha
    exact ⟨kind, by cases kind <;> simp [DependencyKind.all], a, ha, rfl, rfl⟩

theorem length_entries (d : Dependencies α) : d.entries.length = d.count := by
  simp [entries, DependencyKind.all, get, count, Nat.add_assoc]

end Dependencies

end ScriptBundle
