import ScriptBundle.Fault
import ScriptBundle.FileSystem.Access
import ScriptBundle.ModuleSet

/-!
# Surveys

A survey looks once at the files of a request.  It reads the modules that the request selects,
except those that are known already, and notes which ids they declare that are found nowhere.

## Main definitions

* `Unresolved`: an id that was declared but not found, with the modules that declare it.
* `Survey`: the modules of a survey by their keys, and the unresolved ids.
* `BundleAccess`: computations that ask questions and may fail.
* `survey`: look at the files of a request.
-/

namespace ScriptBundle

/-- What is known of an id that was declared but not found. -/
structure Unresolved where
  /-- Some module declares the id by a kind that is mandatory. -/
  mandatory : Bool := false
  /-- The modules that declare the id. -/
  referrers : List ModuleKey := []
  deriving DecidableEq, Repr, Inhabited

/-- Modules by their keys, in ascending order. -/
abbrev ModuleMap := List (ModuleKey × ScriptModule)

/-- Unresolved ids in ascending order. -/
abbrev UnresolvedMap := List (ModuleId × Unresolved)

/-- What a survey finds. -/
structure Survey where
  modules : ModuleMap := []
  unresolved : UnresolvedMap := []

/-- A computation that asks questions and may fail. -/
abbrev BundleAccess := ExceptT (Failure BundleFault) Access

namespace BundleAccess

/-- Ask a single question. -/
def ask (q : Question) : BundleAccess q.Answer := ExceptT.lift (Access.question q)

/-- Fail with a fault of bundling. -/
def fault (f : BundleFault) : BundleAccess α := throw (.error f)

/-- An answer about a path, or the fault that its refusal means. -/
def answered (path : Path) : Except FileFault α → BundleAccess α
  | .ok a => pure a
  | .error refusal => fault (.io path refusal)

/-- An answer about a path, where it is no fault that there is nothing. -/
def found? (path : Path) : Except FileFault α → BundleAccess (Option α)
  | .ok a => pure (some a)
  | .error refusal => if refusal.isNotFound then pure none else fault (.io path refusal)

/-- The text of a file and the time at which it was modified; nothing if there is no file. -/
def text? (path : Path) : BundleAccess (Option (String × Timestamp)) := do
  match ← found? path (← ask (.content path)) with
  | none => return none
  | some content =>
    let modified ← answered path (← ask (.modified path))
    match String.fromUTF8? content with
    | none => fault (.encoding path)
    | some text => return some (text, modified)

end BundleAccess

namespace Survey

open BundleAccess

/-- The manifest of a script, as a step that may be abandoned. -/
def manifest (c : Convention) (source : String) : BundleAccess Manifest :=
  match Manifest.ofSource c source.toList with
  | .ok m => pure m
  | .error reason => throw (.abandoned reason)

/-- Read the module that lies at a path; nothing if there is no file. -/
def load (c : Convention) (path : Path) (key : ModuleKey) (category : String)
    (number : Option Nat) : BundleAccess (Option ScriptModule) := do
  match ← text? path with
  | none => return none
  | some (source, modified) =>
    return some
      { key, path, category, number, source, modified
        version := String.ofList modified.version
        manifest := ← manifest c source }

/-- Read a file that was asked for.  It is a module of the default category if its name has a
number. -/
def loadFile (c : Convention) (path : Path) : BundleAccess (Option ScriptModule) :=
  let number := path.fileName?.bind (moduleNumber? c.extension)
  let key : ModuleKey := match number with
    | some n => .numbered ⟨c.defaultCategory, n⟩
    | none => .file path
  load c path key c.defaultCategory number

/-- The directory of a category.  The default category lies in the requested directory itself; a
category that would lead out of it has no directory. -/
def categoryDirectory? (c : Convention) (dir : Path) (category : String) : Option Path :=
  if category = c.defaultCategory then some dir
  else
    let relative : Path := ⟨category⟩
    if relative.isInside then some (dir.join relative) else none

/-- Take in one entry of the directory of a category. -/
def addEntry (c : Convention) (known : ModuleKey → Bool) (dir : Path) (category : String)
    (selection : Selection) (modules : ModuleMap) (name : String) : BundleAccess ModuleMap := do
  let some number := moduleNumber? c.extension name | return modules
  let key : ModuleKey := .numbered ⟨category, number⟩
  if !selection.includes number || known key || Sorted.contains key modules then return modules
  let path := dir.join ⟨name⟩
  if !(← ask (.isFile path)) then return modules
  match ← load c path key category (some number) with
  | none => return modules
  | some m => return Sorted.insert key m modules

/-- Take in what is selected of a category. -/
def addCategory (c : Convention) (known : ModuleKey → Bool) (dir : Path) (modules : ModuleMap)
    (wanted : String × Selection) : BundleAccess ModuleMap := do
  let category := c.canonical wanted.1
  let some dir := categoryDirectory? c dir category | return modules
  if !(← ask (.isDirectory dir)) then return modules
  match ← found? dir (← ask (.entries dir)) with
  | none => return modules
  | some names => names.foldlM (addEntry c known dir category wanted.2) modules

/-- The modules of a request that are not known. -/
def modulesOf (c : Convention) (known : ModuleKey → Bool) : Request → BundleAccess ModuleMap
  | .file path => do
    match ← loadFile c path with
    | none => return []
    | some m => return if known m.key then [] else [(m.key, m)]
  | .modules dir _ selections => selections.foldlM (addCategory c known dir) []

/-- One more declaration of an id. -/
def Unresolved.add (u : Unresolved) (kind : DependencyKind) (referrer : ModuleKey) : Unresolved :=
  { mandatory := u.mandatory || kind.isMandatory
    referrers :=
      if u.referrers.any fun k => (compare referrer k).isEq then u.referrers
      else u.referrers ++ [referrer] }

/-- Take in one declaration of a module. -/
def addDeclaration (present : ModuleKey → Bool) (referrer : ModuleKey) (unresolved : UnresolvedMap)
    (d : DependencyKind × ModuleId) : UnresolvedMap :=
  if present (.numbered d.2) then unresolved
  else
    let entry := (Sorted.find? d.2 unresolved).getD {}
    Sorted.insert d.2 (Unresolved.add entry d.1 referrer) unresolved

/-- The ids that the given modules declare and that are not present. -/
def unresolvedOf (present : ModuleKey → Bool) (modules : ModuleMap) : UnresolvedMap :=
  modules.foldl (fun us m => m.2.declared.foldl (addDeclaration present m.1) us) []

end Survey

open Survey in
/-- Look at the files of a request.  The modules that are known are not read again, and their ids
do not count as unresolved. -/
def survey (c : Convention) (known : ModuleKey → Bool) (request : Request) :
    BundleAccess Survey := do
  let modules ← modulesOf c known request
  let present key := known key || Sorted.contains key modules
  return { modules, unresolved := unresolvedOf present modules }

end ScriptBundle
