import ScriptBundle.Literal.Number
import ScriptBundle.Text.Quoted
import ScriptBundle.Text.Slice

/-!
# Tokens of literals, and their faults

A fault is found at a place of the text, and a place is the rest of the text from there on.  Only
the error that is shown carries a byte offset.

## Main definitions

* `Mark`: the six punctuation marks.
* `Token`: a punctuation mark, a quoted text, a number or a bare word.
* `Token.describe`: how a message names a token.
* `LiteralFault`: the causes for which a literal is refused, with their wording.
* `Stop`: a fault together with its place.
* `LiteralError`: a fault together with its byte offset.

## Main results

* `Mark.ofChar?_eq_some_iff`: a punctuation mark has one character.
-/

namespace ScriptBundle

/-- A punctuation mark of a literal. -/
inductive Mark where
  | openBrace
  | closeBrace
  | openBracket
  | closeBracket
  | colon
  | comma
  deriving DecidableEq, Repr

/-- The character of a punctuation mark. -/
def Mark.char : Mark → Char
  | .openBrace => '\x7b'
  | .closeBrace => '\x7d'
  | .openBracket => '['
  | .closeBracket => ']'
  | .colon => ':'
  | .comma => ','

/-- The punctuation mark of a character. -/
def Mark.ofChar? : Char → Option Mark
  | '\x7b' => some .openBrace
  | '\x7d' => some .closeBrace
  | '[' => some .openBracket
  | ']' => some .closeBracket
  | ':' => some .colon
  | ',' => some .comma
  | _ => none

theorem Mark.ofChar?_eq_some_iff {c : Char} {m : Mark} : Mark.ofChar? c = some m ↔ c = m.char := by
  constructor
  · intro h
    unfold Mark.ofChar? at h
    split at h <;> cases h <;> rfl
  · rintro rfl
    cases m <;> rfl

/-- A token of a literal.  A quoted text is given by its content, with the escapes resolved. -/
inductive Token where
  | mark (m : Mark)
  | text (content : String)
  | number (n : Number)
  | word (w : String)
  deriving DecidableEq, Repr

/-- How a message names a token. -/
def Token.describe : Token → List Char
  | .mark m => ['\'', m.char, '\'']
  | .text content => "string ".toList ++ Text.shown content.toList
  | .number n => "number ".toList ++ n.write
  | .word w => '\'' :: (w.toList ++ ['\''])

/-! ### What can be wrong with a literal -/

/-- What the grammar of literals calls for at some place. -/
inductive Expectation where
  | value
  | key
  | colon
  /-- After a member of an object. -/
  | memberEnd
  /-- After an item of an array. -/
  | itemEnd
  deriving DecidableEq, Repr

/-- How a message names what was called for. -/
def Expectation.describe : Expectation → String
  | .value => "a value"
  | .key => "an object key"
  | .colon => "':'"
  | .memberEnd => "',' or '\x7d'"
  | .itemEnd => "',' or ']'"

/-- A cause for which a literal is refused. -/
inductive LiteralFault where
  /-- A character with which no token starts. -/
  | unexpectedChar (c : Char)
  /-- A quoted text without its closing quote on the same line. -/
  | unterminatedString
  /-- A unicode escape that is malformed or stands for no character. -/
  | invalidEscape (shown : String)
  /-- A numeral that stands for no number. -/
  | invalidNumber (text : String)
  /-- A token that the grammar does not allow where it stands. -/
  | unexpectedToken (expected : Expectation) (found : Token)
  /-- The text ends within the literal. -/
  | unexpectedEnd
  /-- Something follows the literal. -/
  | trailingInput
  /-- Arrays and objects are nested deeper than allowed. -/
  | tooDeep (limit : Nat)
  deriving DecidableEq, Repr

/-- The wording of a fault. -/
def LiteralFault.message : LiteralFault → String
  | .unexpectedChar c => "unexpected character '" ++ String.singleton c ++ "'"
  | .unterminatedString => "unterminated string literal"
  | .invalidEscape shown => "invalid escape sequence '" ++ shown ++ "'"
  | .invalidNumber text => "invalid number '" ++ text ++ "'"
  | .unexpectedToken expected found =>
    "expected " ++ expected.describe ++ ", found " ++ String.ofList found.describe
  | .unexpectedEnd => "unexpected end of input"
  | .trailingInput => "unexpected input after literal"
  | .tooDeep limit => "literal nested deeper than " ++ toString limit ++ " levels"

/-- A fault and the rest of the text from its place on. -/
structure Stop where
  fault : LiteralFault
  rest : List Char
  deriving DecidableEq, Repr

/-- A fault and the byte offset of its place. -/
structure LiteralError where
  fault : LiteralFault
  offset : Nat
  deriving DecidableEq, Repr

/-- The wording of an error. -/
def LiteralError.message (e : LiteralError) : String :=
  e.fault.message ++ " at offset " ++ toString e.offset

/-- The error that a fault in the text `whole` amounts to. -/
def Stop.toError (whole : List Char) (s : Stop) : LiteralError :=
  ⟨s.fault, Text.offsetOf whole s.rest⟩

end ScriptBundle
