import ScriptBundle.Literal.Cursor
import ScriptBundle.Literal.Grammar

/-!
# Reading a literal with a cursor

A literal can be read with a cursor and one token in view, the one in front of the cursor.  A fault that
is met while the next token is read stays in view until that token is asked for, so what stands behind a
literal does not spoil it.

## Main definitions

* `Outlook`: the token in view, the cursor and the end of the last literal.
* `Lookahead α`: a computation that changes the view.
* `Lookahead.parts`: what stands in brackets and in braces.
* `Lookahead.value`: a literal with a limited depth.
* `Lookahead.decode`, `Lookahead.decodePrefix`: the readers of whole texts and of their fronts.
-/

namespace ScriptBundle

/-- What is in view: a token, or the fault that was met instead. -/
structure Outlook where
  /-- Where the cursor stands, behind the token in view. -/
  position : Nat
  current : Except LiteralError PlacedToken
  /-- Where the last complete literal ends. -/
  stop : Nat

/-- A computation that changes what is in view. -/
abbrev Lookahead := Machine Outlook

namespace Lookahead

open Machine Literal

variable (text : List Char)

/-- The token in view. -/
def kind : Lookahead (Option Token) := do
  match (← get).current with
  | .ok placed => return placed.token
  | .error e => throw e

/-- Where the token in view starts, or where the fault in view is. -/
def offset : Lookahead Nat := do
  match (← get).current with
  | .ok placed => return placed.offset
  | .error e => return e.offset

/-- Take the token in view and read the next one.  A fault is not raised yet. -/
def bump : Lookahead Unit := do
  let view ← get
  let (next, position) ← observe (Cursor.nextToken text) view.position
  set { view with position, current := next }

/-- Refuse the token in view. -/
def unexpected {α : Type} (expected : Expectation) : Lookahead α := do
  match ← kind with
  | none => throw ⟨.unexpectedEnd, ← offset⟩
  | some found => throw ⟨.unexpectedToken expected found, ← offset⟩

/-- Take a mark. -/
def expect (m : Mark) (expected : Expectation) : Lookahead Unit := do
  if (← kind) = some (.mark m) then bump text
  else unexpected expected

/-- Take the closing mark in view.  It takes one byte, and behind it the literal ends. -/
def close : Lookahead Unit := do
  let start ← offset
  modify fun view => { view with stop := start + 1 }
  bump text

/-- Go on behind a part of an array or object: take a comma, or leave the closing mark in view. -/
def goOn (closing : Mark) (expected : Expectation) : Lookahead Unit := do
  let found ← kind
  if found = some (.mark .comma) then bump text
  else if found = some (.mark closing) then return
  else unexpected expected

/-- Add the part in view to those in front of it, unless the closing mark is in view. -/
def nextPart {β : Type} (closing : Mark) (expected : Expectation) (part : β → Lookahead β) (read : β) :
    Lookahead (ForInStep β) := do
  if (← kind) = some (.mark closing) then return .done read
  else
    let read ← part read
    goOn text closing expected
    return .yield read

/-- The parts of an array or object, and the closing mark behind them. -/
def parts {β : Type} (closing : Mark) (expected : Expectation) (part : β → Lookahead β) (start : β) :
    Lookahead β := do
  let read ← loop text (nextPart text closing expected part) start
  close text
  return read

/-- One more item of an array. -/
def item (value : Lookahead Value) (read : List Value) : Lookahead (List Value) := return read ++ [← value]

/-- One more member of an object. -/
def member (value : Lookahead Value) (sorted : List (String × Value)) : Lookahead (List (String × Value)) := do
  match (← kind).bind keyText? with
  | none => unexpected .key
  | some key =>
    bump text
    expect text .colon .colon
    return Sorted.insert key (← value) sorted

/-- Take the scalar in view.  The cursor stands at its end. -/
def scalar (v : Value) : Lookahead Value := do
  modify fun view => { view with stop := view.position }
  bump text
  return v

/-- Take an opening mark and read what it opens, unless there may be no literals inside. -/
def nested (inner : Option (Lookahead Value)) (inside : Lookahead Value → Lookahead Value) : Lookahead Value := do
  match inner with
  | none => throw ⟨.tooDeep maxDepth, ← offset⟩
  | some value =>
    bump text
    inside value

/-- A literal, given a reader of those inside of it, if there may be any. -/
def literal (inner : Option (Lookahead Value)) : Lookahead Value := do
  match ← kind with
  | some (.mark .openBrace) =>
    nested text inner fun value => return .object (← parts text .closeBrace .memberEnd (member text value) [])
  | some (.mark .openBracket) =>
    nested text inner fun value => return .array (← parts text .closeBracket .itemEnd (item value) [])
  | some (.text s) => scalar text (.text s)
  | some (.number n) => scalar text (.number n)
  | some (.word w) => scalar text (wordValue w)
  | _ => unexpected .value

/-- A literal whose arrays and objects are nested at most `room` deep. -/
def value : (room : Nat) → Lookahead Value
  | 0 => literal text none
  | room + 1 => literal text (some (value room))

/-- A literal behind which nothing stands. -/
def complete : Lookahead Value := do
  let v ← value text maxDepth
  if (← kind) = none then return v
  else throw ⟨.trailingInput, ← offset⟩

/-- A literal and where it ends. -/
def front : Lookahead (Value × Nat) := do
  let v ← value text maxDepth
  return (v, (← get).stop)

/-- What a computation comes to that starts with the first token of the text in view. -/
def runOn {α : Type} (m : Lookahead α) : Option (Except Abandonment (Except LiteralError α)) :=
  match (Cursor.nextToken text).runFrom 0 with
  | none => none
  | some (.error reason) => some (.error reason)
  | some (.ok (current, position)) => (m.runFrom ⟨position, current, 0⟩).map fun r => r.map Prod.fst

/-- The value of the literal that is the whole text. -/
def decode (text : String) : Option (Except Abandonment (Except LiteralError Value)) :=
  runOn text.toList (complete text.toList)

/-- The value of the literal at the front of a text, and the byte position of its end. -/
def decodePrefix (text : String) : Option (Except Abandonment (Except LiteralError (Value × Nat))) :=
  runOn text.toList (front text.toList)

end Lookahead

end ScriptBundle
