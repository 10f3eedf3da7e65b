/-!
# Blanks and trivia

Literals, references and source texts are read with the same idea of white space: the
characters with the Unicode property `White_Space`.  Everything here works on `List Char`,
because the readers of this library walk over lists of characters.

Between the tokens of a script stand blanks and comments: `//` up to the end of the line and
`/* … */`.  A block comment that is never closed is not trivia; the text then goes on with its
opening.

## Main definitions

* `isBlank c`: `c` is a white space character.
* `trimLeft`, `trimRight`, `trim`: a text without the blanks at its ends.
* `afterLine cs`: what follows the first line feed.
* `afterBlock cs`: what follows the first `*/`, if there is one.
* `afterTrivia cs`: the text without the trivia it starts with.

## Main results

* `trimLeft_append_of_blank`: blanks put in front of a text are trimmed away.
* `afterTrivia_length_le`: skipping trivia does not lengthen a text.
* `afterTrivia_suffix`: what is left is the end of the text.
-/

namespace ScriptBundle.Text

/-- The characters with the Unicode property `White_Space`. -/
def isBlank (c : Char) : Bool :=
  let n := c.toNat
  (9 ≤ n && n ≤ 13) || n == 0x20 || n == 0x85 || n == 0xA0 || n == 0x1680
    || (0x2000 ≤ n && n ≤ 0x200A) || n == 0x2028 || n == 0x2029 || n == 0x202F
    || n == 0x205F || n == 0x3000

/-- A text without the blanks it starts with. -/
def trimLeft (cs : List Char) : List Char := cs.dropWhile isBlank

/-- A text without the blanks it ends with. -/
def trimRight (cs : List Char) : List Char := (cs.reverse.dropWhile isBlank).reverse

/-- A text without the blanks at either end. -/
def trim (cs : List Char) : List Char := trimRight (trimLeft cs)

@[simp] theorem trimLeft_nil : trimLeft [] = [] := rfl

theorem trimLeft_append_of_blank {bs : List Char} (h : ∀ c ∈ bs, isBlank c = true)
    (cs : List Char) : trimLeft (bs ++ cs) = trimLeft cs := by
  induction bs with
  | nil => rfl
  | cons b bs ih =>
    have hb : isBlank b = true := h b (by simp)
    rw [List.cons_append, trimLeft, List.dropWhile_cons_of_pos hb]
    exact ih fun c hc => h c (by simp [hc])

/-! ### Comments -/

/-- What follows the first line feed. -/
def afterLine : List Char → List Char
  | [] => []
  | c :: cs => if c = '\n' then cs else afterLine cs

/-- What follows the first end of a block comment. -/
def afterBlock : List Char → Option (List Char)
  | [] => none
  | '*' :: '/' :: cs => some cs
  | _ :: cs => afterBlock cs

theorem afterLine_suffix (cs : List Char) : afterLine cs <:+ cs := by
  induction cs with
  | nil => exact List.suffix_refl _
  | cons c cs ih =>
    rw [afterLine]
    split
    · exact List.suffix_cons c cs
    · exact ih.trans (List.suffix_cons c cs)

theorem afterBlock_suffix {cs rest : List Char} (h : afterBlock cs = some rest) :
    rest <:+ cs := by
  fun_induction afterBlock cs with
  | case1 => simp at h
  | case2 cs =>
    obtain rfl := Option.some.inj h
    exact ⟨['*', '/'], rfl⟩
  | case3 c cs _ ih => exact (ih h).trans (List.suffix_cons c cs)

theorem afterLine_length_le (cs : List Char) : (afterLine cs).length ≤ cs.length :=
  (afterLine_suffix cs).length_le

theorem afterBlock_length_le {cs rest : List Char} (h : afterBlock cs = some rest) :
    rest.length ≤ cs.length :=
  (afterBlock_suffix h).length_le

/-- The text without the blanks and comments it starts with. -/
def afterTrivia : List Char → List Char
  | [] => []
  | '/' :: '/' :: cs => afterTrivia (afterLine cs)
  | '/' :: '*' :: cs =>
    match _h : afterBlock cs with
    | some rest => afterTrivia rest
    | none => '/' :: '*' :: cs
  | c :: cs => if isBlank c then afterTrivia cs else c :: cs
termination_by cs => cs.length
decreasing_by
  · have := afterLine_length_le cs
    simp only [List.length_cons]
    omega
  · have := afterBlock_length_le ‹afterBlock cs = some _›
    simp only [List.length_cons]
    omega
  · simp

theorem afterTrivia_suffix (cs : List Char) : afterTrivia cs <:+ cs := by
  fun_induction afterTrivia cs with
  | case1 => exact List.suffix_refl _
  | case2 cs ih => exact ih.trans ((afterLine_suffix cs).trans ⟨['/', '/'], rfl⟩)
  | case3 cs rest h ih => exact ih.trans ((afterBlock_suffix h).trans ⟨['/', '*'], rfl⟩)
  | case4 => exact List.suffix_refl _
  | case5 c cs _ _ _ ih => exact ih.trans (List.suffix_cons c cs)
  | case6 => exact List.suffix_refl _

theorem afterTrivia_length_le (cs : List Char) : (afterTrivia cs).length ≤ cs.length :=
  (afterTrivia_suffix cs).length_le

end ScriptBundle.Text
