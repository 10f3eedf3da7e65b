import ScriptBundle.Literal.Grammar
import ScriptBundle.Script.Segment

/-!
# Declarations of dependencies

A script declares its dependencies by the name of a method with a literal behind it: as a call
`name(literal)`, as a property `name: literal` or as an assignment `name = literal`.  The name may
be quoted and, if so, may stand in brackets.

## Main definitions

* `Place`: a place in a script, with the text on either side.
* `Script.occurrences`: the places where a name stands.
* `Script.declarationAt?`: the declaration that a name at some place begins.
* `Script.declarations`: the declarations with a name, comments aside.
-/

namespace ScriptBundle

/-- A place in a script: the text before it, the nearest character first, and the text from it
on. -/
structure Place where
  past : List Char
  rest : List Char
  deriving DecidableEq, Repr

/-- A declaration: the script from its literal on, and whether it is a call. -/
structure Declaration where
  literal : List Char
  isCall : Bool
  deriving DecidableEq, Repr

namespace Script

/-- The places where a name stands, from left to right and without overlap.  The first `skip`
characters are passed over. -/
def occurrencesFrom (name : List Char) : (skip : Nat) → (past rest : List Char) → List Place
  | 0, past, [] => if name.isEmpty then [⟨past, []⟩] else []
  | _ + 1, _, [] => []
  | skip + 1, past, c :: cs => occurrencesFrom name skip (c :: past) cs
  | 0, past, c :: cs =>
    if name.isPrefixOf (c :: cs) then
      ⟨past, c :: cs⟩ :: occurrencesFrom name (name.length - 1) (c :: past) cs
    else occurrencesFrom name 0 (c :: past) cs

/-- The places where a name stands in a script. -/
def occurrences (name source : List Char) : List Place := occurrencesFrom name 0 [] source

/-- A text without the character with which it has to start. -/
def expectChar (c : Char) : List Char → Option (List Char)
  | d :: cs => if d = c then some cs else none
  | [] => none

/-- The text behind a name and the quotes and brackets around it, given what stands before the name
and behind it.  Nothing if the name goes on to the left, or if a quote or a bracket is not
closed. -/
def afterName? (past after : List Char) : Option (List Char) :=
  match past with
  | [] => some after
  | c :: before =>
    if isWordRest c then none
    else if c = '"' ∨ c = '\'' then
      (expectChar c after).bind fun after =>
        if before.head? = some '[' then expectChar ']' after else some after
    else some after

/-- The sign that joins a name and its literal: whether it makes a call, and the text behind it. -/
def joint? : List Char → Option (Bool × List Char)
  | '(' :: cs => some (true, cs)
  | ':' :: cs => some (false, cs)
  | '=' :: cs => if cs.head? = some '=' ∨ cs.head? = some '>' then none else some (false, cs)
  | _ => none

/-- A text that may start an object, an array or a quoted text. -/
def startsLiteral : List Char → Bool
  | c :: _ => c == '\x7b' || c == '[' || c == '"' || c == '\''
  | [] => false

/-- The declaration that a name at some place begins. -/
def declarationAt? (name : List Char) (place : Place) : Option Declaration := do
  let after ← afterName? place.past (place.rest.drop name.length)
  if (after.head?).any isWordRest then none
  let (isCall, rest) ← joint? (Text.trimLeft after)
  let literal := Text.trimLeft rest
  if startsLiteral literal then some ⟨literal, isCall⟩ else none

/-- The declarations with a name, in the order of the script.  A name in a comment does not
count. -/
def declarations (name source : List Char) : List Declaration :=
  let flags := commentFlags source
  ((occurrences name source).filter fun p => !(flags[p.past.length]?.getD false)).filterMap
    (declarationAt? name)

end Script

/-- The value of a declaration.  It is nothing for a call whose literal is not followed by the
closing parenthesis. -/
def Declaration.read (d : Declaration) : Except Stop (Option Value) :=
  (Literal.readFront d.literal).map fun front =>
    if d.isCall && (Text.trimLeft front.stop).head? != some ')' then none
    else some front.value

end ScriptBundle
