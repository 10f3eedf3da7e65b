import ScriptBundle.ModuleSet
import ScriptBundle.Survey

/-!
# Closures

The modules of a request declare ids, the modules with these ids declare others, and so on.  A
closure is reached by surveys: the first one for the request, each further one for the ids that
are unresolved and were not asked for before.

## Main definitions

* `Closure`: what the surveys so far have found and asked for.
* `Closure.pending`: the ids to ask for next.
* `Closure.extend`: survey until there is nothing to ask for.
* `ModuleSet.ofRequest`: the set of all modules that a request needs.
-/

namespace ScriptBundle

/-- What the surveys so far have found and asked for. -/
structure Closure where
  modules : ModuleMap := []
  unresolved : UnresolvedMap := []
  requested : List ModuleId := []

/-- Both what is known of an id and what is newly known of it. -/
def Unresolved.merge (a b : Unresolved) : Unresolved :=
  { mandatory := a.mandatory || b.mandatory
    referrers := b.referrers.foldl (fun known k =>
      if known.any fun k' => (compare k k').isEq then known else known ++ [k]) a.referrers }

namespace Closure

/-- Take in a module; its id is resolved. -/
def addModule (k : Closure) (entry : ModuleKey × ScriptModule) : Closure :=
  { k with
    modules := Sorted.insert entry.1 entry.2 k.modules
    unresolved := entry.1.id?.elim k.unresolved fun id => Sorted.erase id k.unresolved }

/-- Take in an unresolved id. -/
def addUnresolved (k : Closure) (entry : ModuleId × Unresolved) : Closure :=
  let merged := (Sorted.find? entry.1 k.unresolved).elim entry.2 fun u => u.merge entry.2
  { k with unresolved := Sorted.insert entry.1 merged k.unresolved }

/-- Take in what a survey has found. -/
def add (k : Closure) (s : Survey) : Closure :=
  s.unresolved.foldl addUnresolved (s.modules.foldl addModule k)

/-- The ids that are unresolved and were not asked for, in ascending order. -/
def pending (k : Closure) : List ModuleId := (Sorted.keys k.unresolved).filter (!k.requested.contains ·)

/-- There is a module with this key. -/
def hasKey (k : Closure) (key : ModuleKey) : Bool := Sorted.contains key k.modules

/-- Survey a request and then, as long as there are any, the ids to ask for; not more than `limit`
surveys in all. -/
def extend (c : Convention) (dir : Path) : (limit : Nat) → Closure → Request → BundleAccess Closure
  | 0, _, _ => throw (.abandoned .tooManySurveys)
  | limit + 1, k, request => do
    let k := k.add (← survey c k.hasKey request)
    match k.pending with
    | [] => return k
    | ids => extend c dir limit { k with requested := k.requested ++ ids } (.ofIds dir ids)

/-- The mandatory ids that were not found, with the modules that declare them. -/
def missing (k : Closure) : List MissingModule :=
  (k.unresolved.filter fun u => u.2.mandatory).map fun u => ⟨u.1, u.2.referrers⟩

end Closure

/-- The greatest number of surveys; they are counted in 64 bits. -/
def surveyLimit : Nat := 0xFFFFFFFFFFFFFFFF

/-- The set of all modules that a request needs. -/
def ModuleSet.ofRequest (c : Convention) (request : Request) (limit : Nat := surveyLimit) :
    BundleAccess ModuleSet := do
  let k ← Closure.extend c request.directory limit {} request
  if k.modules.isEmpty then BundleAccess.fault (.nothingToBundle request.describe)
  else
    match k.missing with
    | [] => return .ofModules (Sorted.values k.modules) request.directory request.name?
    | missing => BundleAccess.fault (.missingDependency missing)

end ScriptBundle
