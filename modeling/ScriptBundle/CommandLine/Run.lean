import ScriptBundle.CommandLine.Arguments
import ScriptBundle.FileSystem.Disk
import ScriptBundle.Settings.Basic
import ScriptBundle.Site

/-!
# Runs of the command line

## Main definitions

* `Finish`: what a run prints, and its exit status.
* `Outcome`: a run that is finished, or one that still has to write a file.
* `Outcome.ofArguments`: a run of the program.
* `Outcome.onDisk`: the end of a run on a disk.
-/

namespace ScriptBundle

/-- What a run prints, and its exit status. -/
structure Finish where
  status : Nat
  output : String := ""
  errors : String := ""
  deriving DecidableEq, Repr

/-- What is left to do of a run. -/
inductive Outcome where
  | finish (f : Finish)
  /-- Write a text to a file. -/
  | write (path : Path) (text : String)

/-- The listing of a load order.  Names are filled up with blanks to the number of bytes of the
longest one; what could not be read stands below its module. -/
def listingText (entries : List OrderEntry) : String :=
  let width := (entries.map fun e => e.name.utf8ByteSize).foldl max 0
  String.join (entries.map fun e =>
    e.name ++ String.ofList (List.replicate (width - e.name.length) ' ') ++ "  " ++ e.version ++ "  "
      ++ e.path.text ++ "\n"
      ++ String.join (e.diagnostics.map fun d => "    warning: " ++ d ++ "\n"))

/-- A report for the terminal: one line, then the modules and the path that it is about. -/
def Report.terminalText (r : Report) : String :=
  "error: " ++ r.line ++ "\n" ++ String.join (r.modules.map fun m => "  - " ++ m ++ "\n")
    ++ r.path.elim "" fun p => "  at " ++ p ++ "\n"

/-- A report as it is printed next to a log of some format. -/
def Report.printed (r : Report) : LogFormat → String
  | .json => r.json ++ "\n"
  | _ => r.terminalText

namespace Finish

/-- A run that fails with a fault. -/
def ofFault (format : LogFormat) (fault : SiteFault) : Finish :=
  { status := 1, errors := fault.report.printed format }

/-- A run that was abandoned. -/
def abandoned : Finish := { status := 101 }

/-- A run that could not write its output. -/
def unwritten (text : String) : Finish :=
  { status := 1, errors := "error: cannot write output: " ++ text ++ "\n" }

end Finish

/-- The project file that is read if no other one is named. -/
def defaultProjectFile : Path := ⟨"scriptpack.json"⟩

namespace Options

/-- The project file. -/
def projectFile (o : Options) : Path := o.config.getD defaultProjectFile

/-- The directory of the project file; the working directory has a name of its own. -/
def directory (o : Options) : Path :=
  let dir := projectDirectory o.projectFile
  if dir.text.isEmpty then ⟨"."⟩ else dir

/-- The site of the project file, with another root if one was named.  The project file may be
missing unless it was named. -/
def site (o : Options) : SiteAccess Site := do
  let settings ←
    if o.config.isSome then Settings.load o.projectFile else Settings.loadDefault o.projectFile
  let site := Site.ofSettings settings o.directory
  return { site with root := o.root.getD site.root }

/-- What is printed about a request. -/
def text (o : Options) (site : Site) : BundleAccess String :=
  match o.view with
  | .bundle => do return (← site.bundle o.request).text
  | .order => do return listingText (← site.listing o.request)
  | .graph => do return (← site.graph o.request) ++ "\n"

/-- A run with the given options. -/
def run (o : Options) : Access Outcome := do
  match ← o.site.run with
  | .error fault => return .finish (.ofFault o.format fault)
  | .ok site =>
    match ← (o.text site).run with
    | .error (.error fault) => return .finish (.ofFault o.format (.bundle fault))
    | .error (.abandoned _) => return .finish .abandoned
    | .ok text =>
      match o.output with
      | some path => return .write path text
      | none => return .finish { status := 0, output := text }

end Options

namespace Outcome

/-- A run of the program. -/
def ofArguments (arguments : List String) : Access Outcome :=
  match Invocation.ofArguments arguments with
  | .run options => options.run
  | .help long =>
    pure (.finish { status := 0, output := if long then Help.full else Help.summary })
  | .version => pure (.finish { status := 0, output := Help.version })
  | .misuse => pure (.finish { status := 2, errors := "error: invalid arguments\n\n" ++ Help.usage })

/-- The end of a run on a disk, and the disk after it. -/
def onDisk (d : Disk) : Outcome → Finish × Disk
  | .finish f => (f, d)
  | .write path text =>
    match d.write path ⟨text.toUTF8, .epoch⟩ with
    | .ok d => ({ status := 0 }, d)
    | .error fault => (.unwritten fault.message, d)

end Outcome

end ScriptBundle
