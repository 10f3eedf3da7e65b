/-!
# Quoted texts in literals

A literal may quote a text in single or double quotes.  Both know the same escapes and differ
only in what becomes of an unknown one.

## Main definitions

* `unicodeEscape`: the character of an escape that gives its code.
* `simpleEscape`: what any other escape stands for.
* `stringBody`: the content of a quoted text, up to its closing quote.

## Main results

* `stringBody_length`: the text after the closing quote is shorter.
-/

namespace ScriptBundle

/-- The value of a hexadecimal digit. -/
def hexValue? (c : Char) : Option Nat :=
  if c.isDigit then some (c.toNat - 48)
  else if 'a' ≤ c ∧ c ≤ 'f' then some (c.toNat - 87)
  else if 'A' ≤ c ∧ c ≤ 'F' then some (c.toNat - 55)
  else none

/-- The value of a run of hexadecimal digits. -/
def hexNumber? (cs : List Char) : Option Nat :=
  cs.foldlM (fun n c => (hexValue? c).map (16 * n + ·)) 0

/-- The value of the four hexadecimal digits at the front of a text, and the rest. -/
def hexQuad? : List Char → Option (Nat × List Char)
  | a :: b :: c :: d :: rest => (hexNumber? [a, b, c, d]).map fun n => (n, rest)
  | _ => none

/-- The first half of a surrogate pair. -/
def isHighSurrogate (n : Nat) : Bool := 0xD800 ≤ n && n < 0xDC00

/-- The second half of a surrogate pair. -/
def isLowSurrogate (n : Nat) : Bool := 0xDC00 ≤ n && n < 0xE000

/-- The character for a code point, unless it is a surrogate or too large. -/
def charOf? (n : Nat) : Option Char :=
  if h : n.isValidChar then some (Char.ofNatAux n h) else none

/-- The character of a unicode escape, given what follows its `\u`, and the rest of the text.  Two
escapes that are the halves of a surrogate pair make one character.  If the escape is wrong, the
result is the number of characters of it that are shown: the length of one escape, or of two if
the second one is well formed but no low surrogate. -/
def unicodeEscape (cs : List Char) : Except Nat (Char × List Char) :=
  match hexQuad? cs with
  | none => .error 6
  | some (high, rest) =>
    if isHighSurrogate high then
      match rest with
      | '\\' :: 'u' :: rest =>
        match hexQuad? rest with
        | none => .error 6
        | some (low, rest) =>
          if isLowSurrogate low then
            match charOf? (0x10000 + (high - 0xD800) * 0x400 + (low - 0xDC00)) with
            | some c => .ok (c, rest)
            | none => .error 12
          else .error 12
      | _ => .error 6
    else
      match charOf? high with
      | some c => .ok (c, rest)
      | none => .error 6

/-- What a backslash and the character `c` stand for between quotes.  A line feed is dropped.  An
unknown escape keeps its backslash in single quotes and loses it in double quotes. -/
def simpleEscape (quote c : Char) : List Char :=
  match c with
  | '"' => ['"']
  | '\'' => ['\'']
  | '\\' => ['\\']
  | '/' => ['/']
  | 'b' => ['\x08']
  | 'f' => ['\x0c']
  | 'n' => ['\n']
  | 'r' => ['\r']
  | 't' => ['\t']
  | '\n' => []
  | c => if quote = '\'' then ['\\', c] else [c]

/-! ### The rest is shorter -/

theorem hexQuad?_length {cs rest : List Char} {n : Nat} (h : hexQuad? cs = some (n, rest)) :
    rest.length < cs.length := by
  unfold hexQuad? at h
  split at h
  · obtain ⟨_, _, he⟩ := Option.map_eq_some_iff.1 h
    obtain ⟨_, rfl⟩ := Prod.mk.inj he
    simp only [List.length_cons]
    omega
  · cases h

theorem unicodeEscape_length {cs rest : List Char} {c : Char}
    (h : unicodeEscape cs = .ok (c, rest)) : rest.length < cs.length := by
  unfold unicodeEscape at h
  split at h
  · simp at h
  · next high r hr =>
    have h1 := hexQuad?_length hr
    split at h
    · split at h
      · split at h
        · simp at h
        · next low r' hr' =>
          have h2 := hexQuad?_length hr'
          simp only [List.length_cons] at h1
          split at h
          · split at h
            · simp only [Except.ok.injEq, Prod.mk.injEq] at h
              obtain ⟨_, rfl⟩ := h
              omega
            · simp at h
          · simp at h
      · simp at h
    · split at h
      · simp only [Except.ok.injEq, Prod.mk.injEq] at h
        obtain ⟨_, rfl⟩ := h
        exact h1
      · simp at h

/-! ### The content of a quoted text -/

/-- Why a quoted text is refused. -/
inductive StringFault where
  | unterminated
  /-- A wrong escape: how it is shown, and the text from its backslash on. -/
  | escape (shown rest : List Char)

/-- The content of a quoted text, given what follows its opening quote, and the text after its
closing quote. -/
def stringBody (quote : Char) : List Char → Except StringFault (List Char × List Char)
  | [] => .error .unterminated
  | '\\' :: 'u' :: cs =>
    match _h : unicodeEscape cs with
    | .error n => .error (.escape (('\\' :: 'u' :: cs).take n) ('\\' :: 'u' :: cs))
    | .ok (c, rest) => (stringBody quote rest).map fun r => (c :: r.1, r.2)
  | '\\' :: c :: cs => (stringBody quote cs).map fun r => (simpleEscape quote c ++ r.1, r.2)
  | c :: cs =>
    if c = '\n' ∨ c = '\r' ∨ c = '\\' then .error .unterminated
    else if c = quote then .ok ([], cs)
    else (stringBody quote cs).map fun r => (c :: r.1, r.2)
termination_by cs => cs.length
decreasing_by
  · have := unicodeEscape_length ‹unicodeEscape cs = .ok _›
    simp only [List.length_cons]
    omega
  · simp only [List.length_cons]
    omega
  · simp

/-- More content in front of a quoted text leaves what follows the text as it is. -/
theorem exists_of_map {x : Except StringFault (List Char × List Char)} {more : List Char → List Char}
    {body rest : List Char} (h : (x.map fun r => (more r.1, r.2)) = .ok (body, rest)) :
    ∃ body', x = .ok (body', rest) := by
  cases x with
  | error fault => cases h
  | ok r =>
    cases h
    exact ⟨r.1, rfl⟩

theorem stringBody_length {quote : Char} {cs body rest : List Char}
    (h : stringBody quote cs = .ok (body, rest)) : rest.length < cs.length := by
  fun_induction stringBody quote cs generalizing body rest with
  | case1 => cases h
  | case2 => cases h
  | case3 cs c r hc ih =>
    obtain ⟨body', hr⟩ := exists_of_map h
    have hrest := ih hr
    have hescape := unicodeEscape_length hc
    simp only [List.length_cons]
    omega
  | case4 c cs _ ih =>
    obtain ⟨body', hr⟩ := exists_of_map h
    have hrest := ih hr
    simp only [List.length_cons]
    omega
  | case5 => cases h
  | case6 =>
    cases h
    exact Nat.lt_succ_self _
  | case7 c cs _ _ _ _ ih =>
    obtain ⟨body', hr⟩ := exists_of_map h
    exact Nat.lt_succ_of_lt (ih hr)

end ScriptBundle
