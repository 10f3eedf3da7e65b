import ScriptBundle.Convention
import ScriptBundle.Literal.Value
import ScriptBundle.Text.Slice
import ScriptBundle.Text.Trivia

/-!
# References to modules

A module declares the modules it needs by references: `[kind:][category sep]number`, where `sep`
is one of the characters `/ _ . -`.  For instance `0`, `lib-3` and `optional:ui/12`.

## Main definitions

* `ModuleId`: a category and a number in it.
* `Reference`: a module id and perhaps a kind.
* `Reference.parse`: the reference that a text stands for.
* `Reference.ofValue`: the reference that a scalar in a literal stands for.
-/

namespace ScriptBundle

/-- A module by its category and its number. -/
structure ModuleId where
  category : String
  number : Nat
  deriving DecidableEq, Repr, Inhabited

/-- Module ids are ordered by category, then by number. -/
instance : Ord ModuleId where
  compare a b := (compare a.category b.category).then (compare a.number b.number)

/-- The name of a module id in messages. -/
def ModuleId.name (id : ModuleId) : String := id.category ++ "-" ++ toString id.number

/-- A reference to a module.  A kind that is given overrides the kind of the declaration. -/
structure Reference where
  kind : Option DependencyKind
  id : ModuleId
  deriving DecidableEq, Repr

/-- A cause for which a reference is refused; the texts are the whole reference. -/
inductive ReferenceFault where
  /-- There is no number at the end, or no separator before it. -/
  | missingId (text : String)
  | emptyCategory (text : String)
  /-- The number does not fit in 32 bits. -/
  | idOutOfRange (text : String)
  | unknownKind (text kind : String)
  /-- A scalar that is neither a text nor a natural number. -/
  | notAReference (json : String)
  deriving DecidableEq, Repr

/-- The wording of a fault. -/
def ReferenceFault.message : ReferenceFault → String
  | .missingId text => "dependency reference '" ++ text ++ "' does not end with a numeric id"
  | .emptyCategory text => "dependency reference '" ++ text ++ "' has an empty category"
  | .idOutOfRange text =>
    "dependency reference '" ++ text ++ "' has an id that is out of range"
  | .unknownKind text kind =>
    "dependency reference '" ++ text ++ "' has an unknown kind prefix '" ++ kind ++ "'"
  | .notAReference json =>
    "dependency reference must be a string or a non-negative integer, found " ++ json

namespace Reference

/-- The greatest number of a module. -/
def maxNumber : Nat := 0xFFFFFFFF

/-- The characters between a category and a number. -/
def isSeparator (c : Char) : Bool := c == '/' || c == '_' || c == '.' || c == '-'

/-- A text cut in front of the digits with which it ends. -/
def cutNumber (cs : List Char) : List Char × List Char :=
  ((cs.reverse.dropWhile Char.isDigit).reverse, (cs.reverse.takeWhile Char.isDigit).reverse)

/-- The category in front of a number, given with its separator. -/
def categoryOf (c : Convention) (text : String) (head : List Char) :
    Except ReferenceFault String :=
  match head.reverse with
  | [] => .ok c.defaultCategory
  | sep :: category =>
    if !isSeparator sep then .error (.missingId text)
    else if category.isEmpty then .error (.emptyCategory text)
    else .ok (c.canonical (String.ofList category.reverse))

/-- The id at the end of the reference `text`, given what follows the kind.  The number starts one
byte after the last character that is no digit; a character of several bytes cannot be cut
there. -/
def parseId (c : Convention) (text : String) (cs : List Char) :
    Except (Failure ReferenceFault) ModuleId :=
  let (head, digits) := cutNumber cs
  if (head.getLast?).any fun last => 1 < last.utf8Size then
    .error (.abandoned (.cutInsideCharacter (String.ofList cs)))
  else if digits.isEmpty then .error (.error (.missingId text))
  else
    let number := Numeral.digitsValue digits
    if maxNumber < number then .error (.error (.idOutOfRange text))
    else
      match categoryOf c text head with
      | .error fault => .error (.error fault)
      | .ok category => .ok ⟨category, number⟩

/-- The reference that a text stands for.  Blanks around the whole, the kind and the id do not
count. -/
def parse (c : Convention) (text : String) : Except (Failure ReferenceFault) Reference :=
  let cs := Text.trim text.toList
  let text := String.ofList cs
  match cs.dropWhile (· != ':') with
  | [] => (parseId c text cs).map fun id => ⟨none, id⟩
  | _ :: rest =>
    let kindText := String.ofList (Text.trim (cs.takeWhile (· != ':')))
    match DependencyKind.ofName? kindText with
    | none => .error (.error (.unknownKind text kindText))
    | some kind => (parseId c text (Text.trim rest)).map fun id => ⟨some kind, id⟩

/-- The reference that a scalar in a literal stands for: a text is read, and a natural number
names a module of the default category. -/
def ofValue (c : Convention) : Value → Except (Failure ReferenceFault) Reference
  | .text s => parse c s
  | .number n =>
    let text := String.ofList n.write
    match n.natural? with
    | none => .error (.error (.notAReference text))
    | some number =>
      if maxNumber < number then .error (.error (.idOutOfRange text))
      else .ok ⟨none, ⟨c.defaultCategory, number⟩⟩
  | v => .error (.error (.notAReference (String.ofList v.compact)))

end Reference

end ScriptBundle
