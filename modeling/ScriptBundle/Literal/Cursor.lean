import ScriptBundle.Literal.Lexeme
import ScriptBundle.Text.Slice

/-!
# Reading tokens at byte positions

The tokens of a text can be read with a cursor that is a number of bytes and moves on by the sizes of
what it has seen.  Every look at the text cuts it at the cursor, and the reading is abandoned where that
cannot be done.  Whether a loop comes to an end is not known beforehand: it is followed for one round more than
the text has characters, and has no result if it still goes on then.

## Main definitions

* `Machine σ α`: a computation that changes a state, and that may fail, be abandoned or not come to an end.
* `Machine.loop`: rounds up to the last one.
* `Cursor α`: such a computation that moves a byte position.
* `Cursor.nextToken`: the next token, with the place at which it starts.
-/

namespace ScriptBundle

/-- A computation that changes a state.  A state is left behind also by an error; a computation that is
abandoned leaves none, and one that goes on and on has no result. -/
abbrev Machine (σ : Type) := ExceptT LiteralError (StateT σ (ExceptT Abandonment Option))

namespace Machine

variable {σ α β : Type}

/-- How a computation ends that starts with a state, if it ends. -/
def runFrom (m : Machine σ α) (s : σ) : Option (Except Abandonment (Except LiteralError α × σ)) :=
  ExceptT.run (StateT.run (ExceptT.run m) s)

/-- What a computation on another state comes to, be it a result or an error. -/
def observe {τ : Type} (m : Machine τ α) (t : τ) : Machine σ (Except LiteralError α × τ) :=
  ExceptT.lift (StateT.lift (ExceptT.mk (m.runFrom t)))

/-- What has been cut out of a text.  The computation is abandoned if it could not be cut. -/
def part (text : List Char) : Option (List Char) → Machine σ (List Char)
  | some cs => return cs
  | none => throwThe Abandonment (.cutInsideCharacter (String.ofList text))

/-- Up to `n` rounds of a loop.  There is no result if none of them is the last one. -/
def rounds (round : β → Machine σ (ForInStep β)) : (n : Nat) → β → Machine σ β
  | 0, _ => ExceptT.lift (StateT.lift (ExceptT.mk none))
  | n + 1, b => do
    match ← round b with
    | .done b => return b
    | .yield b => rounds round n b

/-- A loop that is followed for one round more than the text has characters. -/
def loop (text : List Char) (round : β → Machine σ (ForInStep β)) : β → Machine σ β :=
  rounds round (text.length + 1)

end Machine

/-- A computation that moves a byte position. -/
abbrev Cursor := Machine Nat

/-- A token, none at the end of the text, and the byte position at which it starts. -/
structure PlacedToken where
  token : Option Token
  offset : Nat
  deriving DecidableEq, Repr

namespace Cursor

open Machine

variable (text : List Char)

/-! ### Moving on -/

/-- The text from the cursor on. -/
def rest : Cursor (List Char) := do part text (Text.dropBytes? text (← get))

/-- The text from a place up to the cursor. -/
def since (start : Nat) : Cursor (List Char) := do part text (Text.sliceBytes? text start (← get))

/-- The character that stands `n` characters behind the cursor. -/
def peekAt (n : Nat) : Cursor (Option Char) := return (← rest text)[n]?

/-- Move behind the next character. -/
def advance : Cursor (Option Char) := do
  match ← peekAt text 0 with
  | none => return none
  | some c =>
    modify (· + c.utf8Size)
    return some c

/-- Move behind the next character, if it is of the given kind. -/
def skipIf (p : Char → Bool) : Cursor Bool := do
  match ← peekAt text 0 with
  | none => return false
  | some c =>
    if p c then
      let _ ← advance text
      return true
    else return false

/-- Move behind the characters of the given kind. -/
def skipWhile (p : Char → Bool) : Cursor Unit :=
  loop text (fun _ => do if ← skipIf text p then return .yield () else return .done ()) ()

/-! ### Trivia -/

/-- Move behind the end of the line. -/
def skipLine : Cursor Unit :=
  loop text (fun _ => do
    match ← advance text with
    | none => return .done ()
    | some c => if c = '\n' then return .done () else return .yield ()) ()

/-- Move behind a block comment.  Its opening takes two bytes, and so does its end. -/
def skipBlock : Cursor Unit := do
  let start ← get
  set (start + 2)
  match Text.findBytes? ['*', '/'] (← rest text) with
  | some n => modify (· + (n + 2))
  | none => throw ⟨.unexpectedEnd, start⟩

/-- Move behind a blank or a comment, if the next two characters start one. -/
def skipPieceOf (first second : Option Char) : Cursor (ForInStep Unit) := do
  if first.any Text.isBlank then
    let _ ← advance text
    return .yield ()
  else if first = some '/' ∧ second = some '/' then
    skipLine text
    return .yield ()
  else if first = some '/' ∧ second = some '*' then
    skipBlock text
    return .yield ()
  else return .done ()

/-- Move behind a blank or a comment, if there is one. -/
def skipPiece : Cursor (ForInStep Unit) := do skipPieceOf text (← peekAt text 0) (← peekAt text 1)

/-- Move behind blanks and comments. -/
def skipTrivia : Cursor Unit := loop text (fun _ => skipPiece text) ()

/-! ### Quoted texts -/

/-- The four hexadecimal digits of an escape that starts at `escapeAt`. -/
def hexQuad (escapeAt : Nat) : Cursor Nat := do
  let start ← get
  match (Text.sliceBytes? text start (start + 4)).bind hexNumber? with
  | some n =>
    set (start + 4)
    return n
  | none =>
    let shown ← part text (Text.dropBytes? text escapeAt)
    throw ⟨.invalidEscape (String.ofList (shown.take 6)), escapeAt⟩

/-- Refuse the escape that starts at `escapeAt`, and show it up to the cursor. -/
def refuseEscape {α : Type} (escapeAt : Nat) : Cursor α := do
  let shown ← since text escapeAt
  throw ⟨.invalidEscape (String.ofList shown), escapeAt⟩

/-- The code point of two escapes that are a surrogate pair, of which the first one has been read. -/
def pairCode (escapeAt high : Nat) : Cursor Nat := do
  modify (· + 2)
  let low ← hexQuad text escapeAt
  if isLowSurrogate low then return 0x10000 + (high - 0xD800) * 0x400 + (low - 0xDC00)
  else refuseEscape text escapeAt

/-- The code point of an escape, or of a surrogate pair. -/
def escapeCode (escapeAt : Nat) : Cursor Nat := do
  let high ← hexQuad text escapeAt
  if isHighSurrogate high then
    if ['\\', 'u'].isPrefixOf (← rest text) then pairCode text escapeAt high
    else return high
  else return high

/-- The character of an escape. -/
def unicodeEscape (escapeAt : Nat) : Cursor Char := do
  match charOf? (← escapeCode text escapeAt) with
  | some c => return c
  | none => refuseEscape text escapeAt

/-- The next character of a quoted text, of which `content` has been read.  A backslash takes one byte. -/
def quotedPiece (quote : Char) (start : Nat) (content : List Char) : Cursor (ForInStep (List Char)) := do
  match ← advance text with
  | none => throw ⟨.unterminatedString, start⟩
  | some c =>
    if c = '\n' ∨ c = '\r' then throw ⟨.unterminatedString, start⟩
    else if c = quote then return .done content
    else if c = '\\' then
      let escapeAt := (← get) - 1
      match ← advance text with
      | none => throw ⟨.unterminatedString, start⟩
      | some e =>
        if e = 'u' then return .yield (content ++ [← unicodeEscape text escapeAt])
        else return .yield (content ++ simpleEscape quote e)
    else return .yield (content ++ [c])

/-- A quoted text. -/
def quoted (quote : Char) : Cursor Token := do
  let start ← get
  let _ ← advance text
  let content ← loop text (quotedPiece text quote start) []
  return .text (String.ofList content)

/-! ### Numbers and words -/

/-- A sign, if there is one. -/
def skipSign : Cursor Unit := do
  let _ ← skipIf text fun c => c == '-' || c == '+'

/-- A point with the digits after it, if there is one. -/
def skipFraction : Cursor Unit := do
  if ← skipIf text (· == '.') then skipWhile text Char.isDigit

/-- An exponent, if there is one. -/
def skipExponent : Cursor Unit := do
  if ← skipIf text fun c => c == 'e' || c == 'E' then
    skipSign text
    skipWhile text Char.isDigit

/-- A number. -/
def numeral : Cursor Token := do
  let start ← get
  skipSign text
  skipWhile text Char.isDigit
  skipFraction text
  skipExponent text
  skipWhile text isWordRest
  let shown ← since text start
  match (Numeral.scan shown).1.value? with
  | some n => return .number n
  | none => throw ⟨.invalidNumber (String.ofList shown), start⟩

/-- A word. -/
def word : Cursor Token := do
  let start ← get
  skipWhile text isWordRest
  let shown ← since text start
  return .word (String.ofList shown)

/-- The token at the cursor, of which `c` is the first character. -/
def tokenFrom (c : Char) : Cursor Token := do
  match Mark.ofChar? c with
  | some m =>
    let _ ← advance text
    return .mark m
  | none =>
    if c = '"' ∨ c = '\'' then quoted text c
    else if isNumeralStart c then numeral text
    else if isWordStart c then word text
    else
      let offset ← get
      throw ⟨.unexpectedChar c, offset⟩

/-- The next token, with the place at which it starts. -/
def nextToken : Cursor PlacedToken := do
  skipTrivia text
  let offset ← get
  match ← peekAt text 0 with
  | none => return ⟨none, offset⟩
  | some c =>
    let token ← tokenFrom text c
    return ⟨some token, offset⟩

end Cursor

end ScriptBundle
