import ScriptBundle.Literal.Lexeme
import ScriptBundle.Literal.Value

/-!
# Reading a literal

A literal is a scalar, an array of literals, or an object with keyed literals; a comma may follow
the last item or member.  The reader walks over the lexemes of a text with one lexeme in view.  A
fault of the text behind those lexemes matters only to a reader that comes to their end.

## Main definitions

* `Reader α`: reads an `α` from the front of a list of lexemes and leaves fewer of them.
* `Literal.items`, `Literal.members`: what stands in brackets and in braces.
* `Literal.value`: a literal with a limited depth.
* `Literal.readFront`: the literal at the front of a text.
* `Literal.decode`, `Literal.decodePrefix`, `Literal.decode?`: the readers of this library.
-/

namespace ScriptBundle

/-- What a reader has read, the text behind it, and the lexemes that are left: fewer than
`bound`. -/
structure Parsed (α : Type) (bound : Nat) where
  result : α
  stop : List Char
  rest : List Lexeme
  shorter : rest.length < bound

/-- The same with another result, seen from further ahead. -/
def Parsed.widen {α β : Type} {m n : Nat} (p : Parsed α m) (f : α → β) (h : m ≤ n) : Parsed β n :=
  ⟨f p.result, p.stop, p.rest, Nat.lt_of_lt_of_le p.shorter h⟩

/-- Reads from the front of a list of lexemes and leaves fewer of them. -/
abbrev Reader (α : Type) := (ls : List Lexeme) → Except Stop (Parsed α ls.length)

namespace Literal

/-- The greatest depth to which arrays and objects may be nested. -/
def maxDepth : Nat := 64

/-- The fault of a place where something else was called for.  At the end of the lexemes it is the
fault `ending` that ended them. -/
def refusal (ending : Stop) (expected : Expectation) : List Lexeme → Stop
  | [] => ending
  | l :: _ => ⟨.unexpectedToken expected l.token, l.start⟩

/-- The items of an array up to its closing bracket. -/
def items (ending : Stop) (item : Reader Value) (ls : List Lexeme) :
    Except Stop (Parsed (List Value) ls.length) :=
  match ls with
  | ⟨.mark .closeBracket, _, stop⟩ :: rest => .ok ⟨[], stop, rest, by simp⟩
  | ls =>
    match item ls with
    | .error e => .error e
    | .ok ⟨v, _, rest, shorter⟩ =>
      match rest, shorter with
      | ⟨.mark .comma, _, _⟩ :: rest, shorter =>
        (items ending item rest).map fun p =>
          p.widen (v :: ·) (by simp only [List.length_cons] at shorter; omega)
      | ⟨.mark .closeBracket, _, stop⟩ :: rest, shorter =>
        .ok ⟨[v], stop, rest, by simp only [List.length_cons] at shorter; omega⟩
      | rest, _ => .error (refusal ending .itemEnd rest)
termination_by ls.length
decreasing_by
  simp only [List.length_cons] at *
  omega

/-- The key at the front of a member: a quoted text, a word or the text of a number. -/
def keyText? : Token → Option String
  | .text s => some s
  | .word w => some w
  | .number n => some (String.ofList n.write)
  | .mark _ => none

/-- The members of an object up to its closing brace, in the order in which they stand. -/
def members (ending : Stop) (item : Reader Value) (ls : List Lexeme) :
    Except Stop (Parsed (List (String × Value)) ls.length) :=
  match ls with
  | [] => .error ending
  | ⟨.mark .closeBrace, _, stop⟩ :: rest => .ok ⟨[], stop, rest, by simp⟩
  | key :: afterKey =>
    match keyText? key.token with
    | none => .error (refusal ending .key (key :: afterKey))
    | some k =>
      match afterKey with
      | ⟨.mark .colon, _, _⟩ :: afterColon =>
        match item afterColon with
        | .error e => .error e
        | .ok ⟨v, _, rest, shorter⟩ =>
          match rest, shorter with
          | ⟨.mark .comma, _, _⟩ :: rest, shorter =>
            (members ending item rest).map fun p =>
              p.widen ((k, v) :: ·) (by simp only [List.length_cons] at shorter ⊢; omega)
          | ⟨.mark .closeBrace, _, stop⟩ :: rest, shorter =>
            .ok ⟨[(k, v)], stop, rest, by simp only [List.length_cons] at shorter ⊢; omega⟩
          | rest, _ => .error (refusal ending .memberEnd rest)
      | afterKey => .error (refusal ending .colon afterKey)
termination_by ls.length
decreasing_by
  simp only [List.length_cons] at *
  omega

/-- The value of a bare word: a keyword, or the word as a text. -/
def wordValue (w : String) : Value :=
  if w = "true" then .bool true
  else if w = "false" then .bool false
  else if w = "null" ∨ w = "undefined" then .null
  else .text w

/-- The object with the given members.  Of members with one key the last one counts. -/
def objectOf (members : List (String × Value)) : Value :=
  .object (members.foldl (fun sorted m => Sorted.insert m.1 m.2 sorted) [])

/-- A literal whose arrays and objects are nested at most `room` deep. -/
def value (ending : Stop) : (room : Nat) → Reader Value
  | _, [] => .error ending
  | _, ⟨.text s, _, stop⟩ :: rest => .ok ⟨.text s, stop, rest, by simp⟩
  | _, ⟨.number n, _, stop⟩ :: rest => .ok ⟨.number n, stop, rest, by simp⟩
  | _, ⟨.word w, _, stop⟩ :: rest => .ok ⟨wordValue w, stop, rest, by simp⟩
  | 0, ⟨.mark .openBrace, start, _⟩ :: _ => .error ⟨.tooDeep maxDepth, start⟩
  | 0, ⟨.mark .openBracket, start, _⟩ :: _ => .error ⟨.tooDeep maxDepth, start⟩
  | room + 1, ⟨.mark .openBrace, _, _⟩ :: rest =>
    (members ending (value ending room) rest).map fun p => p.widen objectOf (by simp)
  | room + 1, ⟨.mark .openBracket, _, _⟩ :: rest =>
    (items ending (value ending room) rest).map fun p => p.widen .array (by simp)
  | _, l :: _ => .error ⟨.unexpectedToken .value l.token, l.start⟩

/-- The fault that a reader meets at the end of the lexemes of a text: the one that ended them, or
the end of the text. -/
def endingOf (fault : Option Stop) : Stop := fault.getD ⟨.unexpectedEnd, []⟩

/-- The literal at the front of a text, the text behind it, and what follows: lexemes and the
fault that ends them. -/
structure Front where
  value : Value
  stop : List Char
  following : List Lexeme
  fault : Option Stop

/-- Read the literal at the front of a text. -/
def readFront (cs : List Char) : Except Stop Front :=
  let (ls, fault) := Lexeme.all cs
  (value (endingOf fault) maxDepth ls).map fun p => ⟨p.result, p.stop, p.rest, fault⟩

/-- Read a text that holds a literal and, around it, only trivia. -/
def readAll (cs : List Char) : Except Stop Value :=
  match readFront cs with
  | .error e => .error e
  | .ok front =>
    match front.following, front.fault with
    | l :: _, _ => .error ⟨.trailingInput, l.start⟩
    | [], some s => .error s
    | [], none => .ok front.value

/-- The value of the literal that is the whole text. -/
def decode (text : String) : Except LiteralError Value :=
  (readAll text.toList).mapError (Stop.toError text.toList)

/-- The value of the literal at the front of a text, and the byte offset of its end.  Nothing
behind the literal is looked at. -/
def decodePrefix (text : String) : Except LiteralError (Value × Nat) :=
  match readFront text.toList with
  | .error s => .error (s.toError text.toList)
  | .ok front => .ok (front.value, Text.offsetOf text.toList front.stop)

/-- The value of the literal that is the whole text, if it is one. -/
def decode? (text : String) : Option Value := (decode text).toOption

end Literal

end ScriptBundle
