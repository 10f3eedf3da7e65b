import ScriptBundle.Convention
import ScriptBundle.Fault
import ScriptBundle.FileSystem.Access
import ScriptBundle.Path
import ScriptBundle.Settings.Document

/-!
# Settings

A project file sets the root directory of requests, the convention, and the log levels.

## Main definitions

* `LogLevel`, `LogLevel.parse?`: how much is logged, and the level that a user names.
* `Phase`: a phase of bundling, for which a level of its own can be set.
* `Settings`: what a project file sets.
* `Settings.read?`: the settings in the text of a project file.
* `Settings.load`, `Settings.loadDefault`: the settings of a project file, and of one that need not exist.
* `projectDirectory`: the directory to which the settings of a project file belong.

## Main results

* `LogLevel.ofName?_name`: the name of a level names it.
-/

namespace ScriptBundle

/-! ### Log levels -/

/-- How much is logged. -/
inductive LogLevel where
  | error
  | warn
  | info
  | debug
  | trace
  deriving DecidableEq, Repr, Inhabited

namespace LogLevel

/-- The name of a level. -/
def name : LogLevel → String
  | .error => "error"
  | .warn => "warn"
  | .info => "info"
  | .debug => "debug"
  | .trace => "trace"

/-- All levels, from the quietest on. -/
def all : List LogLevel := [.error, .warn, .info, .debug, .trace]

/-- The level with an exact name. -/
def ofName? (s : String) : Option LogLevel := all.find? fun l => l.name = s

/-- The level that a user names, in capitals or not.  Silence still shows errors. -/
def parse? (s : String) : Option LogLevel :=
  let s := s.map Char.toLower
  if s = "silent" then some .error else ofName? s

end LogLevel

/-- A phase of bundling. -/
inductive Phase where
  | discovery
  | graph
  | weight
  | emit
  deriving DecidableEq, Repr

namespace Phase

/-- All phases in their order. -/
def all : List Phase := [.discovery, .graph, .weight, .emit]

/-- The name of a phase. -/
def name : Phase → String
  | .discovery => "discovery"
  | .graph => "graph"
  | .weight => "weight"
  | .emit => "emit"

/-- The name under which a phase logs. -/
def target (p : Phase) : String := "scriptpack::" ++ p.name

end Phase

/-! ### Settings -/

/-- The log levels: one for everything, and others for single phases. -/
structure Logging where
  level : LogLevel := .warn
  discovery : Option LogLevel := none
  graph : Option LogLevel := none
  weight : Option LogLevel := none
  emit : Option LogLevel := none
  deriving DecidableEq, Repr, Inhabited

/-- What a project file sets. -/
structure Settings where
  root : Option Path := none
  convention : Convention := {}
  logging : Logging := {}
  deriving DecidableEq, Repr, Inhabited

/-- The fields of a convention, in their order. -/
def Convention.fields : List String :=
  ["extension", "default_category", "default_category_alias", "wildcard", "marker_param",
    "compile_method", "launch_method", "optional_method", "loader_file", "loader_var",
    "loader_entry"]

/-- The convention that a document describes; missing fields have their usual values. -/
def Convention.ofDocument? (d : Document) : Option Convention := do
  let field ← d.fields? Convention.fields
  let usual : Convention := {}
  return {
    extension := ← Document.textOr usual.extension (field "extension")
    defaultCategory := ← Document.textOr usual.defaultCategory (field "default_category")
    defaultAlias := ← Document.textOr usual.defaultAlias (field "default_category_alias")
    wildcard := ← Document.textOr usual.wildcard (field "wildcard")
    marker := ← Document.textOr usual.marker (field "marker_param")
    compileMethod := ← Document.textOr usual.compileMethod (field "compile_method")
    launchMethod := ← Document.textOr usual.launchMethod (field "launch_method")
    optionalMethod := ← Document.textOr usual.optionalMethod (field "optional_method")
    loaderFile := ← Document.textOr usual.loaderFile (field "loader_file")
    loaderVariable := ← Document.textOr usual.loaderVariable (field "loader_var")
    loaderEntry := ← Document.textOr usual.loaderEntry (field "loader_entry") }

/-- The level that a document names: its exact name, alone or as the key of a null. -/
def LogLevel.ofDocument? : Document → Option LogLevel
  | .text (some s) | .object [(some s, .null)] => LogLevel.ofName? s
  | _ => none

/-- The log levels that a document describes. -/
def Logging.ofDocument? (d : Document) : Option Logging := do
  let field ← d.fields? ["level", "discovery", "graph", "weight", "emit"]
  let phase (name : String) := Document.optionally LogLevel.ofDocument? (field name)
  return {
    level := ← Document.readOr .warn LogLevel.ofDocument? (field "level")
    discovery := ← phase "discovery"
    graph := ← phase "graph"
    weight := ← phase "weight"
    emit := ← phase "emit" }

namespace Settings

/-- The path that a document gives. -/
def pathOf? : Document → Option Path
  | .text s => s.map Path.mk
  | _ => none

/-- The settings that a document describes. -/
def ofDocument? (d : Document) : Option Settings := do
  let field ← d.fields? ["root", "convention", "logging"]
  return {
    root := ← Document.optionally pathOf? (field "root")
    convention := ← Document.readOr {} Convention.ofDocument? (field "convention")
    logging := ← Document.readOr {} Logging.ofDocument? (field "logging") }

/-- The settings in the text of a project file. -/
def read? (text : String) : Option Settings := (Document.read? text).bind ofDocument?

end Settings

/-! ### Project files -/

/-- A computation that asks questions and may fail before any bundling. -/
abbrev SiteAccess := ExceptT SiteFault Access

/-- What the system says about a file that cannot be read. -/
def FileFault.systemMessage : FileFault → String
  | .notFound _ => "No such file or directory (os error 2)"
  | .permissionDenied _ => "Permission denied (os error 13)"
  | .io text => text
  | fault => fault.message

/-- The directory to which the settings of a project file belong. -/
def projectDirectory (path : Path) : Path := path.parent?.getD ⟨""⟩

namespace Settings

/-- The settings in the content of a project file, or what is wrong with it. -/
def ofContent (content : ByteArray) : Except String Settings :=
  match String.fromUTF8? content with
  | none => .error "stream did not contain valid UTF-8"
  | some text =>
    match read? text with
    | none => .error "not a project file"
    | some settings => .ok settings

/-- The settings of a project file. -/
def load (path : Path) : SiteAccess Settings := do
  let answer ← ExceptT.lift (Access.question (.content path))
  match (answer.mapError FileFault.systemMessage).bind ofContent with
  | .ok settings => return settings
  | .error text => throw (.project path text)

/-- The settings of a project file, or the usual ones if there is nothing at its path. -/
def loadDefault (path : Path) : SiteAccess Settings := do
  let isFile ← ExceptT.lift (Access.question (.isFile path))
  let isDirectory ← ExceptT.lift (Access.question (.isDirectory path))
  if isFile || isDirectory then load path else return {}

end Settings

end ScriptBundle
