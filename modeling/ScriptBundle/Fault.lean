import ScriptBundle.FileSystem.Access
import ScriptBundle.ModuleSet
import ScriptBundle.Request
import ScriptBundle.Text.Quoted

/-!
# Faults and reports

What can go wrong between a project file and a bundle.  A report says in which phase something went
wrong, of what kind it is, in words what happened, and which modules or which path are concerned.

## Main definitions

* `MissingModule`: a mandatory dependency that was not found.
* `BundleFault`: why a request cannot be bundled, with its wording.
* `SiteFault`: everything that can go wrong between a project file and a bundle.
* `Report`: the report of a fault, by `SiteFault.report`.
* `Report.line`, `Report.short`, `Report.json`: three ways to write a report.
-/

namespace ScriptBundle

/-- A mandatory dependency that was not found, and the modules that declare it. -/
structure MissingModule where
  id : ModuleId
  referrers : List ModuleKey
  deriving DecidableEq, Repr, Inhabited

/-- How a message shows a missing module. -/
def MissingModule.describe (m : MissingModule) : String :=
  m.id.name ++ " (required by " ++ ", ".intercalate (m.referrers.map ModuleKey.name) ++ ")"

/-- Why a request cannot be bundled. -/
inductive BundleFault where
  | missingDependency (missing : List MissingModule)
  /-- The bit of a module has come back to it along compile dependencies.  This module is named last
  and also before.  The others are modules on the path of the walk, or those whose bits have come to
  it.  They need not depend on each other in the order in which they are named. -/
  | compileCycle (modules : List ModuleKey)
  | invalidRequest (request : String) (fault : RequestFault)
  /-- The request matches no file. -/
  | nothingToBundle (request : String)
  /-- There is a file, but it cannot be read. -/
  | io (path : Path) (fault : FileFault)
  /-- The content of a file is not UTF-8. -/
  | encoding (path : Path)
  deriving DecidableEq, Repr

/-- The wording of a fault. -/
def BundleFault.message : BundleFault → String
  | .missingDependency missing =>
    "mandatory dependencies could not be found: "
      ++ "; ".intercalate (missing.map MissingModule.describe)
  | .compileCycle modules =>
    "compile dependency cycle detected: " ++ " -> ".intercalate (modules.map ModuleKey.name)
  | .invalidRequest request fault => "invalid request '" ++ request ++ "': " ++ fault.message
  | .nothingToBundle request => "nothing to bundle for request '" ++ request ++ "'"
  | .io path fault => "failed to read '" ++ path.text ++ "': " ++ fault.message
  | .encoding path => "'" ++ path.text ++ "' is not valid UTF-8"

/-! ### Reports -/

/-- Everything that can go wrong between a project file and a bundle. -/
inductive SiteFault where
  | bundle (fault : BundleFault)
  /-- The project file cannot be read or has the wrong form. -/
  | project (path : Path) (text : String)
  /-- The shared site is chosen already. -/
  | alreadyChosen
  /-- The shared site is not chosen yet. -/
  | notChosen
  deriving DecidableEq, Repr

/-- A report on a fault. -/
structure Report where
  phase : String
  kind : String
  message : String
  modules : List String := []
  path : Option String := none
  deriving DecidableEq, Repr, Inhabited

namespace BundleFault

/-- The phase in which a fault arises. -/
def phase : BundleFault → String
  | .invalidRequest _ _ => "request"
  | .nothingToBundle _ => "discovery"
  | .missingDependency _ => "graph"
  | .compileCycle _ => "weight"
  | .io _ _ | .encoding _ => "io"

/-- The kind of a fault. -/
def kind : BundleFault → String
  | .missingDependency _ => "MissingDependency"
  | .compileCycle _ => "CompileDependencyCycle"
  | .invalidRequest _ _ => "InvalidRequest"
  | .nothingToBundle _ => "NothingToBundle"
  | .io _ _ => "Io"
  | .encoding _ => "Encoding"

/-- The modules that a fault is about: those that are missing, or those named for a cycle. -/
def modules : BundleFault → List String
  | .missingDependency missing => missing.map fun m => m.id.name
  | .compileCycle modules => modules.map ModuleKey.name
  | _ => []

/-- The path that a fault is about. -/
def path? : BundleFault → Option String
  | .io path _ | .encoding path => some path.text
  | _ => none

end BundleFault

/-- The report of a fault. -/
def SiteFault.report : SiteFault → Report
  | .bundle fault => ⟨fault.phase, fault.kind, fault.message, fault.modules, fault.path?⟩
  | .project path text =>
    { phase := "config", kind := "InvalidConfig"
      message := "invalid project file '" ++ path.text ++ "': " ++ text
      path := some path.text }
  | .alreadyChosen =>
    { phase := "config", kind := "ConfigAlreadyInitialized"
      message := "configuration already initialized" }
  | .notChosen =>
    { phase := "config", kind := "ConfigNotInitialized"
      message := "configuration not initialized" }

namespace Report

/-- The report on one line. -/
def line (r : Report) : String := "[" ++ r.phase ++ "] " ++ r.kind ++ ": " ++ r.message

/-- The report without its kind. -/
def short (r : Report) : String := r.phase ++ ": " ++ r.message

/-- A text as a JSON string. -/
def quoted (s : String) : String := String.ofList (Text.json s.toList)

/-- The members of a report as a JSON object.  No modules and no path are left out. -/
def fields (r : Report) : List (String × String) :=
  [("phase", quoted r.phase), ("error_kind", quoted r.kind), ("message", quoted r.message)]
    ++ (if r.modules.isEmpty then []
      else [("modules", "[" ++ ",".intercalate (r.modules.map quoted) ++ "]")])
    ++ (r.path.map fun p => ("path", quoted p)).toList

/-- The report as a JSON object. -/
def json (r : Report) : String :=
  "\x7b" ++ ",".intercalate (r.fields.map fun f => quoted f.1 ++ ":" ++ f.2) ++ "\x7d"

end Report

end ScriptBundle
