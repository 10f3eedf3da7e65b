import ScriptBundle.Literal.Number
import ScriptBundle.Sorted
import ScriptBundle.Text.Quoted

/-!
# Values of literals

What a literal says: null, a truth value, a number, a text, a list of values, or values with
keys.  The members of an object are kept in key order, one for each key.

## Main definitions

* `Value`: the value of a literal.
* `Value.compact`: the value as JSON without blanks.

## Main results

* `compact_array`, `compact_object`: how the parts of a value are put together.
-/

namespace ScriptBundle

/-- The value of a literal. -/
inductive Value where
  | null
  | bool (b : Bool)
  | number (n : Number)
  | text (s : String)
  | array (items : List Value)
  /-- The members in ascending order of their keys. -/
  | object (members : List (String × Value))
  deriving Inhabited

namespace Value

/-- Texts with a comma between any two of them. -/
def commaSeparated (parts : List (List Char)) : List Char := (parts.intersperse [',']).flatten

mutual

/-- A value as JSON without blanks. -/
def compact : Value → List Char
  | .null => "null".toList
  | .bool true => "true".toList
  | .bool false => "false".toList
  | .number n => n.write
  | .text s => Text.json s.toList
  | .array items => '[' :: (commaSeparated (compactItems items) ++ [']'])
  | .object members => '\x7b' :: (commaSeparated (compactMembers members) ++ ['\x7d'])

/-- The items of an array, each as JSON. -/
def compactItems : List Value → List (List Char)
  | [] => []
  | item :: rest => item.compact :: compactItems rest

/-- The members of an object, each as JSON. -/
def compactMembers : List (String × Value) → List (List Char)
  | [] => []
  | (key, value) :: rest =>
    (Text.json key.toList ++ ':' :: value.compact) :: compactMembers rest

end

theorem compactItems_eq (items : List Value) : compactItems items = items.map compact := by
  induction items with
  | nil => simp [compactItems]
  | cons item rest ih => simp [compactItems, ih]

theorem compactMembers_eq (members : List (String × Value)) :
    compactMembers members =
      members.map fun m => Text.json m.1.toList ++ ':' :: m.2.compact := by
  induction members with
  | nil => simp [compactMembers]
  | cons m rest ih => simp [compactMembers, ih]

theorem compact_array (items : List Value) :
    (Value.array items).compact = '[' :: (commaSeparated (items.map compact) ++ [']']) := by
  rw [compact, compactItems_eq]

theorem compact_object (members : List (String × Value)) :
    (Value.object members).compact =
      '\x7b' :: (commaSeparated
        (members.map fun m => Text.json m.1.toList ++ ':' :: m.2.compact) ++ ['\x7d']) := by
  rw [compact, compactMembers_eq]

end Value

end ScriptBundle
