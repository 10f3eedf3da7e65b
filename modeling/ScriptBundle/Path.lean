/-!
# Paths

A path is a text; slashes cut it into components.  Empty components and single points do not
count, except for a single point at the start of a relative path.  Paths keep their spelling when
they are joined or shown, and are compared by their components.

## Main definitions

* `Path`: a path with its spelling.
* `PathComponent`, `Path.components`: what a path is made of.
* `Path.join`, `Path.parent?`, `Path.fileName?`.
-/

namespace ScriptBundle

/-- A path with its spelling. -/
structure Path where
  text : String
  deriving DecidableEq, Repr, Inhabited

/-- A component of a path. -/
inductive PathComponent where
  /-- The slash at the start of an absolute path. -/
  | root
  /-- The single point at the start of a relative path. -/
  | here
  /-- Two points: the directory above. -/
  | up
  | name (s : String)
  deriving DecidableEq, Repr

namespace PathComponent

/-- Components are ordered as they are listed in the definition, names by their characters. -/
def compare : PathComponent → PathComponent → Ordering
  | .name s, .name t => Ord.compare s t
  | .name _, _ => .gt
  | _, .name _ => .lt
  | a, b => Ord.compare (rank a) (rank b)
where
  /-- The place of a component in that order. -/
  rank : PathComponent → Nat
    | .root => 0
    | .here => 1
    | .up => 2
    | .name _ => 3

instance : Ord PathComponent := ⟨PathComponent.compare⟩

/-- The component is a name or the point at the start. -/
def isInside : PathComponent → Bool
  | .name _ => true
  | .here => true
  | _ => false

end PathComponent

namespace Path

/-- A component that does not count: nothing at all or a single point. -/
def isIdle (part : List Char) : Bool := part.isEmpty || part == ['.']

/-- The start of a path, a slash or a single point or nothing, and the parts behind it. -/
def leadAndParts (p : Path) : List Char × List (List Char) :=
  match p.text.toList with
  | '/' :: cs => (['/'], cs.splitOn '/')
  | ['.'] => (['.'], [[]])
  | '.' :: '/' :: cs => (['.'], [] :: cs.splitOn '/')
  | cs => ([], cs.splitOn '/')

/-- The component for the start of a path. -/
def leadComponents (lead : List Char) : List PathComponent :=
  if lead = ['/'] then [.root] else if lead = ['.'] then [.here] else []

/-- The component for a part that counts. -/
def partComponent (part : List Char) : PathComponent :=
  if part = ['.', '.'] then .up else .name (String.ofList part)

/-- What a path is made of. -/
def components (p : Path) : List PathComponent :=
  let (lead, parts) := p.leadAndParts
  leadComponents lead ++ (parts.filter fun part => !isIdle part).map partComponent

/-- The path starts at the root. -/
def isAbsolute (p : Path) : Bool := p.text.toList.head? == some '/'

/-- The second path seen from the first one.  A slash is put between them unless there is one or
the first path is empty; an absolute second path stands for itself. -/
def join (p q : Path) : Path :=
  if q.isAbsolute then q
  else
    let last := p.text.toList.getLast?
    if last = none ∨ last = some '/' then ⟨p.text ++ q.text⟩ else ⟨p.text ++ "/" ++ q.text⟩

/-- The path without its last component, also without slashes and points at its end.  There is
none for an empty path or the root. -/
def parent? (p : Path) : Option Path :=
  let (lead, parts) := p.leadAndParts
  match parts.reverse.dropWhile isIdle with
  | [] => if lead = ['.'] then some ⟨""⟩ else none
  | _ :: before =>
    let kept := (before.dropWhile isIdle).reverse
    some ⟨String.ofList (lead ++ ['/'].intercalate kept)⟩

/-- The last component, if it is a name. -/
def fileName? (p : Path) : Option String :=
  match p.components.getLast? with
  | some (.name s) => some s
  | _ => none

/-- Paths are ordered by their components. -/
def compare (p q : Path) : Ordering := Ord.compare p.components q.components

instance : Ord Path := ⟨Path.compare⟩

/-- The path goes down only: it has no root and no step upwards. -/
def isInside (p : Path) : Bool := p.components.all PathComponent.isInside

end Path

end ScriptBundle
