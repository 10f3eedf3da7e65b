import ScriptBundle.Bundle
import ScriptBundle.Fault
import ScriptBundle.Settings.Basic

/-!
# Sites

A site is a root directory with a convention; request paths are paths under the root.  A program
may share one site among all its parts.  It is chosen once and for all.

## Main definitions

* `Site`: where requests are resolved, and by which names.
* `Site.ofSettings`: the site of a project file.
* `Site.bundle`, `Site.listing`, `Site.graph`: answers to a request path.
* `SharedSite`: the site that a program shares, if it is chosen.

## Main results

* `choose_choose`: a second choice is refused.
-/

namespace ScriptBundle

/-- Where requests are resolved, and by which names. -/
structure Site where
  root : Path := ⟨"."⟩
  convention : Convention := {}
  deriving DecidableEq, Repr, Inhabited

namespace Site

/-- The site of a project file in a directory: its root, seen from there. -/
def ofSettings (s : Settings) (projectDirectory : Path) : Site :=
  { root := s.root.elim projectDirectory projectDirectory.join
    convention := s.convention }

/-- The sites have the same convention, and their roots are the same path. -/
def agrees (a b : Site) : Bool :=
  (compare a.root b.root).isEq && a.convention == b.convention

/-- The request that a path stands for. -/
def request (s : Site) (text : String) : BundleAccess Request :=
  match Request.parse s.root s.convention text with
  | .ok r => pure r
  | .error fault => BundleAccess.fault (.invalidRequest text fault)

/-- All modules that a request path needs. -/
def resolve (s : Site) (text : String) : BundleAccess Resolution := do
  Resolution.ofRequest s.convention (← s.request text)

/-- The bundle for a request path. -/
def bundle (s : Site) (text : String) : BundleAccess Bundle := do
  Bundle.ofRequest s.convention (← s.request text)

/-- The modules that a request path needs, in their load order. -/
def listing (s : Site) (text : String) : BundleAccess (List OrderEntry) := do
  let r ← s.resolve text
  return r.set.entriesIn r.order

/-- The dependency graph of the modules that a request path needs. -/
def graph (s : Site) (text : String) : BundleAccess String := do
  let r ← s.resolve text
  return String.ofList (r.set.dot r.weights r.order)

end Site

/-- The site that a program shares, if it is chosen. -/
abbrev SharedSite := Option Site

namespace SharedSite

/-- Choose the shared site. -/
def choose (site : Site) : SharedSite → Except SiteFault SharedSite
  | none => .ok (some site)
  | some _ => .error .alreadyChosen

/-- The shared site. -/
def get : SharedSite → Except SiteFault Site
  | none => .error .notChosen
  | some site => .ok site

/-- Choose the shared site unless one is chosen. -/
def chooseOrKeep (site : Site) (shared : SharedSite) : Site := shared.getD site

theorem choose_choose {a : Site} {shared chosen : SharedSite} (h : shared.choose a = .ok chosen)
    (b : Site) : chosen.choose b = .error .alreadyChosen := by
  cases shared with
  | none =>
    cases h
    rfl
  | some _ => cases h

end SharedSite

end ScriptBundle
