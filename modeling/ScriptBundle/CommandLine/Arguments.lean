import ScriptBundle.Path
import ScriptBundle.Settings.Basic

/-!
# Arguments of the command line

Arguments are read from the left, and the first one that asks for a help text or the version, or
that makes no sense, decides.

## Main definitions

* `Help.summary`, `Help.full`: the short and the long help text.
* `Help.usage`, `Help.version`: how the program is called, and what it is.
* `Arguments`: what the arguments say.
* `Invocation`: what the program is asked to do.
* `Invocation.ofArguments`: reads the arguments.
-/

namespace ScriptBundle

/-! ### Help texts -/

namespace Help

/-- An entry of a help text: how something is written, and what it means. -/
structure Entry where
  form : String
  text : String

/-- The name and the version of the program. -/
def version : String := "scriptpack 0.1.0\n"

/-- How the program is called. -/
def usage : String := "Usage: scriptpack [OPTIONS] <REQUEST>\n"

/-- What the program does, and how it is called. -/
def introduction : String :=
  "Resolve and bundle self-registering script modules\n\n" ++ usage ++ "\n"

/-- The request. -/
def request : Entry :=
  ⟨"<REQUEST>", "Request path, e.g. \x60js/u:5.js\x60, \x60js/*.js\x60 or \x60js/main.js\x60"⟩

/-- The options before the log format. -/
def options : List Entry :=
  [⟨"    --root <DIR>", "Directory request paths are resolved against"⟩,
    ⟨"    --config <FILE>", "Project file (default: ./scriptpack.json when present)"⟩,
    ⟨"-o, --output <FILE>", "Write the result here instead of stdout"⟩,
    ⟨"    --graph", "Print the dependency graph in Graphviz DOT format"⟩,
    ⟨"    --order", "Print the module order instead of the bundle"⟩,
    ⟨"    --log-level <LEVEL>", "Log level: silent, error, warn, info, debug, trace"⟩]

/-- How the log format is written. -/
def formatForm : String := "    --log-format <LOG_FORMAT>"

/-- The log formats and what they are for. -/
def formats : List Entry :=
  [⟨"pretty:  ", "彩色格式化（开发使用）"⟩, ⟨"compact: ", "紧凑格式"⟩, ⟨"json:    ", "JSON 格式（工具集成）"⟩]

/-- The options behind the log format, where a help text mentions the other one. -/
def lastOptions (other : String) : List Entry :=
  [⟨"-h, --help", "Print help (" ++ other ++ ")"⟩, ⟨"-V, --version", "Print version"⟩]

/-- An entry on a line of its own. -/
def Entry.line (width : Nat) (e : Entry) : String :=
  "  " ++ e.form ++ String.ofList (List.replicate (width - e.form.length) ' ') ++ "  " ++ e.text
    ++ "\n"

/-- An entry with its meaning on the next line. -/
def Entry.block (e : Entry) : String := "  " ++ e.form ++ "\n          " ++ e.text ++ "\n"

/-- The short help text. -/
def summary : String :=
  let entries :=
    options ++ [⟨formatForm,
        "Log output format [default: compact] [possible values: pretty, compact, json]"⟩]
      ++ lastOptions "see more with '--help'"
  introduction ++ "Arguments:\n" ++ request.line request.form.length ++ "\nOptions:\n"
    ++ String.join (entries.map (Entry.line formatForm.length))

/-- The long help text. -/
def full : String :=
  let values := formats.map fun f => "          - " ++ f.form ++ f.text ++ "\n"
  let format : Entry :=
    ⟨formatForm, "Log output format\n\n          Possible values:\n" ++ String.join values
      ++ "          \n          [default: compact]"⟩
  introduction ++ "Arguments:\n" ++ request.block ++ "\nOptions:\n"
    ++ "\n".intercalate
      ((options ++ [format] ++ lastOptions "see a summary with '-h'").map Entry.block)

end Help

/-! ### What the arguments say -/

/-- What is printed. -/
inductive View where
  | bundle
  | order
  | graph
  deriving DecidableEq, Repr, Inhabited

/-- The form of log lines; errors are reported as JSON if the log is. -/
inductive LogFormat where
  | pretty
  | compact
  | json
  deriving DecidableEq, Repr, Inhabited

/-- The format with the given name. -/
def LogFormat.ofName? (s : String) : Option LogFormat :=
  if s = "pretty" then some .pretty
  else if s = "compact" then some .compact
  else if s = "json" then some .json
  else none

/-- What the arguments say so far. -/
structure Arguments where
  request : Option String := none
  root : Option Path := none
  config : Option Path := none
  output : Option Path := none
  graph : Bool := false
  order : Bool := false
  level : Option LogLevel := none
  format : Option LogFormat := none
  deriving DecidableEq, Repr, Inhabited

/-- A request with everything that was said about it. -/
structure Options where
  request : String
  root : Option Path
  config : Option Path
  output : Option Path
  view : View
  level : Option LogLevel
  format : LogFormat
  deriving DecidableEq, Repr

/-- What the program is asked to do. -/
inductive Invocation where
  | run (options : Options)
  /-- Show a help text, the long one or the short one. -/
  | help (long : Bool)
  | version
  /-- The arguments make no sense. -/
  | misuse
  deriving DecidableEq, Repr

namespace Arguments

/-- Set something that was not set before. -/
def set? (old : Option α) (new : Option α) : Option (Option α) :=
  if old.isSome || new.isNone then none else some new

/-- A path given as a value; it may not be empty. -/
def pathValue? (value : String) : Option Path := if value.isEmpty then none else some ⟨value⟩

/-- The names of the options that take a value. -/
def valueNames : List String := ["root", "config", "output", "log-level", "log-format"]

/-- Take in an option with its value.  No option may be given twice. -/
def withValue? (a : Arguments) (name value : String) : Option Arguments :=
  match name with
  | "root" => (set? a.root (pathValue? value)).map fun root => { a with root }
  | "config" => (set? a.config (pathValue? value)).map fun config => { a with config }
  | "output" => (set? a.output (pathValue? value)).map fun output => { a with output }
  | "log-level" => (set? a.level (LogLevel.parse? value)).map fun level => { a with level }
  | "log-format" => (set? a.format (LogFormat.ofName? value)).map fun format => { a with format }
  | _ => none

/-- Take in an option without a value. -/
def withFlag? (a : Arguments) (name : String) : Option Arguments :=
  match name with
  | "graph" => if a.graph then none else some { a with graph := true }
  | "order" => if a.order then none else some { a with order := true }
  | _ => none

/-- Take in a request; there is only one. -/
def withRequest? (a : Arguments) (request : String) : Option Arguments :=
  if a.request.isSome then none else some { a with request := some request }

/-- The options that the arguments amount to.  A request is needed, and only one view of it can
be asked for. -/
def options? (a : Arguments) : Option Options := do
  let request ← a.request
  if a.graph && a.order then none
  else
    return {
      request, root := a.root, config := a.config, output := a.output
      view := if a.graph then .graph else if a.order then .order else .bundle
      level := a.level
      format := a.format.getD .compact }

end Arguments

/-- An argument by its form. -/
inductive ArgumentForm where
  /-- Two hyphens alone: only requests follow. -/
  | terminator
  /-- A name after two hyphens, and a value after an equals sign. -/
  | long (name : String) (value : Option String)
  /-- A letter after one hyphen, and what follows it. -/
  | short (letter : Char) (attached : List Char)
  | plain (text : String)
  deriving DecidableEq, Repr

/-- The form of an argument. -/
def ArgumentForm.of (argument : String) : ArgumentForm :=
  match argument.toList with
  | ['-', '-'] => .terminator
  | '-' :: '-' :: cs =>
    let name := String.ofList (cs.takeWhile (· != '='))
    match cs.dropWhile (· != '=') with
    | [] => .long name none
    | _ :: value => .long name (some (String.ofList value))
  | '-' :: c :: cs => .short c cs
  | _ => .plain argument

namespace Invocation

/-- What the arguments amount to in the end. -/
def finish (a : Arguments) : Invocation := (a.options?).elim .misuse .run

/-- Read what follows the terminator. -/
def ofRequests (a : Arguments) (requests : List String) : Invocation :=
  (requests.foldlM Arguments.withRequest? a).elim .misuse finish

/-- The value attached to a letter; an equals sign in front does not belong to it. -/
def attachedValue (cs : List Char) : Option String :=
  match cs with
  | [] => none
  | '=' :: cs => some (String.ofList cs)
  | cs => some (String.ofList cs)

/-- Read the arguments. -/
def read (a : Arguments) : List String → Invocation
  | [] => finish a
  | argument :: rest =>
    match ArgumentForm.of argument with
    | .terminator => ofRequests a rest
    | .plain text =>
      match a.withRequest? text with
      | none => .misuse
      | some a => read a rest
    | .long "help" none => .help true
    | .long "version" none => .version
    | .short 'h' _ => .help false
    | .short 'V' _ => .version
    | .long name value => readOption a name value rest
    | .short 'o' attached => readOption a "output" (attachedValue attached) rest
    | .short _ _ => .misuse
where
  /-- Read an option whose value may be the next argument. -/
  readOption (a : Arguments) (name : String) (value : Option String) (rest : List String) :
      Invocation :=
    if Arguments.valueNames.contains name then
      match value, rest with
      | some value, rest =>
        match a.withValue? name value with
        | none => .misuse
        | some a => read a rest
      | none, argument :: rest =>
        match ArgumentForm.of argument with
        | .plain text =>
          match a.withValue? name text with
          | none => .misuse
          | some a => read a rest
        | _ => .misuse
      | none, [] => .misuse
    else
      match value with
      | some _ => .misuse
      | none =>
        match a.withFlag? name with
        | none => .misuse
        | some a => read a rest

/-- What the program is asked to do. -/
def ofArguments (arguments : List String) : Invocation := read {} arguments

end Invocation

end ScriptBundle
