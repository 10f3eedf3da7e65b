import ScriptBundle.Literal.Quotation

/-!
# JSON documents

A strict reader of JSON for the project file.  A string may hold escapes that stand for no
character, half a surrogate pair for instance, as long as nobody asks for its text.

## Main definitions

* `Document`: a JSON value; nobody asks for the value of a number.
* `Document.read?`: the value that a text holds.
* `Document.fields?`: the fields of a record, which is an object or an array.
-/

namespace ScriptBundle

/-- A JSON value.  The text of a string is missing if an escape in it stands for no character. -/
inductive Document where
  | null
  | bool (b : Bool)
  | number
  | text (s : Option String)
  | array (items : List Document)
  | object (members : List (Option String × Document))
  deriving Inhabited

namespace Document

/-! ### Scalars -/

/-- The text without the white space at its front. -/
def skipSpace (cs : List Char) : List Char :=
  cs.dropWhile fun c => c == ' ' || c == '\t' || c == '\n' || c == '\r'

/-- The character of an escape that gives its code, if it stands for one, and the rest. -/
def unicodeUnit? (cs : List Char) : Option (Option Char × List Char) :=
  match unicodeEscape cs with
  | .ok (c, rest) => some (some c, rest)
  | .error _ => (hexQuad? cs).map fun p => (none, p.2)

/-- The character of any other escape. -/
def escaped? : Char → Option Char
  | '"' => some '"'
  | '\\' => some '\\'
  | '/' => some '/'
  | 'b' => some '\x08'
  | 'f' => some '\x0c'
  | 'n' => some '\n'
  | 'r' => some '\r'
  | 't' => some '\t'
  | _ => none

theorem unicodeUnit?_length {cs rest : List Char} {c : Option Char}
    (h : unicodeUnit? cs = some (c, rest)) : rest.length < cs.length := by
  unfold unicodeUnit? at h
  split at h
  · next hu =>
    obtain ⟨_, rfl⟩ := Prod.mk.inj (Option.some.inj h)
    exact unicodeEscape_length hu
  · obtain ⟨p, hp, he⟩ := Option.map_eq_some_iff.1 h
    obtain ⟨_, rfl⟩ := Prod.mk.inj he
    exact hexQuad?_length hp

/-- The characters of a string, given what follows its opening quote, and the text after its
closing quote. -/
def characters? : List Char → Option (List (Option Char) × List Char)
  | [] => none
  | '"' :: cs => some ([], cs)
  | '\\' :: 'u' :: cs =>
    match _h : unicodeUnit? cs with
    | none => none
    | some (c, rest) => (characters? rest).map fun r => (c :: r.1, r.2)
  | '\\' :: c :: cs =>
    match escaped? c with
    | none => none
    | some d => (characters? cs).map fun r => (some d :: r.1, r.2)
  | c :: cs =>
    if c.toNat < 0x20 || c == '\\' then none
    else (characters? cs).map fun r => (some c :: r.1, r.2)
termination_by cs => cs.length
decreasing_by
  · have := unicodeUnit?_length ‹unicodeUnit? cs = some _›
    simp only [List.length_cons]
    omega
  · simp only [List.length_cons]
    omega
  · simp

/-- A string, given what follows its opening quote, and the text behind it. -/
def string? (cs : List Char) : Option (Option String × List Char) :=
  (characters? cs).map fun r => ((r.1.mapM id).map String.ofList, r.2)

/-- The text behind one or more digits. -/
def afterDigits? (cs : List Char) : Option (List Char) :=
  if (cs.head?).any Char.isDigit then some (cs.dropWhile Char.isDigit) else none

/-- The text behind an integer without a sign. -/
def afterInteger? : List Char → Option (List Char)
  | '0' :: cs => if (cs.head?).any Char.isDigit then none else some cs
  | cs => afterDigits? cs

/-- The text behind a fraction, if there is one. -/
def afterFraction? : List Char → Option (List Char)
  | '.' :: cs => afterDigits? cs
  | cs => some cs

/-- The text behind an exponent, if there is one. -/
def afterExponent? : List Char → Option (List Char)
  | c :: cs =>
    if c == 'e' || c == 'E' then
      match cs with
      | '+' :: cs | '-' :: cs => afterDigits? cs
      | cs => afterDigits? cs
    else some (c :: cs)
  | [] => some []

/-- The text behind a number. -/
def afterNumber? (cs : List Char) : Option (List Char) :=
  ((afterInteger? (if cs.head? == some '-' then cs.tail else cs)).bind afterFraction?).bind
    afterExponent?

/-- A keyword or a number, and the text behind it. -/
def scalar? (cs : List Char) : Option (Document × List Char) :=
  match cs with
  | 'n' :: 'u' :: 'l' :: 'l' :: cs => some (.null, cs)
  | 't' :: 'r' :: 'u' :: 'e' :: cs => some (.bool true, cs)
  | 'f' :: 'a' :: 'l' :: 's' :: 'e' :: cs => some (.bool false, cs)
  | cs => (afterNumber? cs).map fun rest => (.number, rest)

/-! ### Values -/

mutual

/-- The value at the front of a text, and the text behind it. -/
def value? : (fuel : Nat) → List Char → Option (Document × List Char)
  | 0, _ => none
  | fuel + 1, cs =>
    match skipSpace cs with
    | '"' :: cs => (string? cs).map fun r => (.text r.1, r.2)
    | '[' :: cs =>
      match skipSpace cs with
      | ']' :: cs => some (.array [], cs)
      | cs => (items? fuel cs).map fun r => (.array r.1, r.2)
    | '\x7b' :: cs =>
      match skipSpace cs with
      | '\x7d' :: cs => some (.object [], cs)
      | cs => (members? fuel cs).map fun r => (.object r.1, r.2)
    | cs => scalar? cs

/-- One or more items up to the closing bracket. -/
def items? : (fuel : Nat) → List Char → Option (List Document × List Char)
  | 0, _ => none
  | fuel + 1, cs =>
    match value? fuel cs with
    | none => none
    | some (item, cs) =>
      match skipSpace cs with
      | ',' :: cs => (items? fuel cs).map fun r => (item :: r.1, r.2)
      | ']' :: cs => some ([item], cs)
      | _ => none

/-- One or more members up to the closing brace. -/
def members? : (fuel : Nat) → List Char → Option (List (Option String × Document) × List Char)
  | 0, _ => none
  | fuel + 1, cs =>
    match skipSpace cs with
    | '"' :: cs =>
      match string? cs with
      | none => none
      | some (key, cs) =>
        match skipSpace cs with
        | ':' :: cs =>
          match value? fuel cs with
          | none => none
          | some (v, cs) =>
            match skipSpace cs with
            | ',' :: cs => (members? fuel cs).map fun r => ((key, v) :: r.1, r.2)
            | '\x7d' :: cs => some ([(key, v)], cs)
            | _ => none
        | _ => none
    | _ => none

end

/-- The value that a text holds.  Every bracket, item and member takes up a character at least, and
two steps at most. -/
def read? (text : String) : Option Document :=
  let cs := text.toList
  match value? (2 * cs.length + 2) cs with
  | some (d, rest) => if (skipSpace rest).isEmpty then some d else none
  | none => none

/-! ### Records -/

/-- The fields of a record by their names.  A record is an object, in which other keys do not count
and no field is given twice, or an array of the fields in their order, in which the last ones may
be missing. -/
def fields? (names : List String) : Document → Option (String → Option Document)
  | .array items =>
    if items.length ≤ names.length then some fun name => (names.zip items).lookup name else none
  | .object members =>
    if members.all fun m => m.1.isSome then
      let known := members.filterMap fun m =>
        m.1.bind fun key => if names.contains key then some (key, m.2) else none
      if (known.map Prod.fst).Nodup then some fun name => known.lookup name else none
    else none
  | _ => none

/-- The text of a string, or a default for a missing field. -/
def textOr (default : String) : Option Document → Option String
  | none => some default
  | some (.text s) => s
  | some _ => none

/-- A field that may be missing or null. -/
def optionally (read : Document → Option α) : Option Document → Option (Option α)
  | none | some .null => some none
  | some d => (read d).map some

/-- A field that is read, or a default for a missing one. -/
def readOr (default : α) (read : Document → Option α) : Option Document → Option α
  | none => some default
  | some d => read d

end Document

end ScriptBundle
