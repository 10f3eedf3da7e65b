import ScriptBundle.Text.Trivia

/-!
# Code, quotations and comments

A script is cut into quotations, comments and single characters of code, so that a comment sign in
a quotation is not taken for a comment.  A quotation in single or double quotes ends at the latest
before the end of its line; one in back quotes may go on over several lines.

## Main definitions

* `Segment`: a piece of a script with its kind.
* `segments`: the pieces of a script, in order.
* `commentFlags`: for each character of a script, whether it belongs to a comment.

## Main results

* `flatMap_segments`: the pieces of a script together are the script.
-/

namespace ScriptBundle

/-- What a piece of a script is. -/
inductive SegmentKind where
  | code
  | quotation
  | comment
  deriving DecidableEq, Repr

/-- A piece of a script. -/
structure Segment where
  kind : SegmentKind
  text : List Char
  deriving DecidableEq, Repr

namespace Script

/-- A quotation that goes on until its closing quote, given what follows the opening one, and the
text behind it.  A backslash takes the next character with it. -/
def cutQuotation (quote : Char) : List Char → List Char × List Char
  | [] => ([], [])
  | '\\' :: c :: cs => let r := cutQuotation quote cs; ('\\' :: c :: r.1, r.2)
  | c :: cs =>
    if c = quote then ([c], cs)
    else if c = '\n' ∧ quote ≠ '\x60' then ([], c :: cs)
    else let r := cutQuotation quote cs; (c :: r.1, r.2)

/-- A block comment up to and with its end, given what follows its opening, and the text behind
it.  A comment without an end takes the whole text. -/
def cutBlock : List Char → List Char × List Char
  | [] => ([], [])
  | '*' :: '/' :: cs => (['*', '/'], cs)
  | c :: cs => let r := cutBlock cs; (c :: r.1, r.2)

/-- A line comment up to the end of its line, and the text behind it. -/
def cutLine (cs : List Char) : List Char × List Char :=
  (cs.takeWhile (· != '\n'), cs.dropWhile (· != '\n'))

theorem cutQuotation_append (quote : Char) (cs : List Char) :
    (cutQuotation quote cs).1 ++ (cutQuotation quote cs).2 = cs := by
  fun_induction cutQuotation quote cs <;> simp_all +zetaDelta

theorem cutBlock_append (cs : List Char) : (cutBlock cs).1 ++ (cutBlock cs).2 = cs := by
  fun_induction cutBlock cs <;> simp_all +zetaDelta

theorem cutLine_append (cs : List Char) : (cutLine cs).1 ++ (cutLine cs).2 = cs :=
  List.takeWhile_append_dropWhile

theorem cutQuotation_length (quote : Char) (cs : List Char) :
    (cutQuotation quote cs).2.length ≤ cs.length := by
  have := congrArg List.length (cutQuotation_append quote cs)
  simp only [List.length_append] at this
  omega

theorem cutBlock_length (cs : List Char) : (cutBlock cs).2.length ≤ cs.length := by
  have := congrArg List.length (cutBlock_append cs)
  simp only [List.length_append] at this
  omega

theorem cutLine_length (cs : List Char) : (cutLine cs).2.length ≤ cs.length :=
  (List.dropWhile_sublist _).length_le

/-- The pieces of a script, in order. -/
def segments : List Char → List Segment
  | [] => []
  | '/' :: '/' :: cs =>
    ⟨.comment, '/' :: '/' :: (cutLine cs).1⟩ :: segments (cutLine cs).2
  | '/' :: '*' :: cs =>
    ⟨.comment, '/' :: '*' :: (cutBlock cs).1⟩ :: segments (cutBlock cs).2
  | c :: cs =>
    if c = '"' ∨ c = '\'' ∨ c = '\x60' then
      ⟨.quotation, c :: (cutQuotation c cs).1⟩ :: segments (cutQuotation c cs).2
    else ⟨.code, [c]⟩ :: segments cs
termination_by cs => cs.length
decreasing_by
  · have := cutLine_length cs
    simp only [List.length_cons]
    omega
  · have := cutBlock_length cs
    simp only [List.length_cons]
    omega
  · have := cutQuotation_length c cs
    simp only [List.length_cons]
    omega
  · simp

/-- For each character of a script, whether it belongs to a comment. -/
def commentFlags (cs : List Char) : List Bool :=
  (segments cs).flatMap fun s => s.text.map fun _ => s.kind == .comment

/-- The pieces of a script together are the script. -/
theorem flatMap_segments (cs : List Char) : (segments cs).flatMap Segment.text = cs := by
  fun_induction segments cs with
  | case1 => rfl
  | case2 cs ih => simp [ih, cutLine_append]
  | case3 cs ih => simp [ih, cutBlock_append]
  | case4 c cs _ _ _ ih => simp [ih, cutQuotation_append]
  | case5 c cs _ _ _ ih => simp [ih]

end Script

end ScriptBundle
