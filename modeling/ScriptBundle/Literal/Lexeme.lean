import ScriptBundle.Literal.Quotation
import ScriptBundle.Literal.Token
import ScriptBundle.Text.Trivia

/-!
# Cutting a text into tokens

## Main definitions

* `scanToken`: the token at the front of a text, and the text after it.
* `Lexeme`: a token with the text from it on and the text after it.
* `Lexeme.next?`: the first lexeme of a text, none if only trivia is left.
* `Lexeme.all`: the lexemes of a text, up to its end or up to the first fault.

## Main results

* `scanToken_length`: the text after a token is shorter.
* `Lexeme.next?_length`: so every text has finitely many lexemes.
-/

namespace ScriptBundle

/-- The characters with which a numeral starts. -/
def isNumeralStart (c : Char) : Bool := c.isDigit || c == '-' || c == '+' || c == '.'

/-- The quoted text that starts with the quote `quote`, given what follows it. -/
def scanQuoted (quote : Char) (cs : List Char) : Except Stop (Token × List Char) :=
  match stringBody quote cs with
  | .ok (body, rest) => .ok (.text (String.ofList body), rest)
  | .error .unterminated => .error ⟨.unterminatedString, quote :: cs⟩
  | .error (.escape shown rest) => .error ⟨.invalidEscape (String.ofList shown), rest⟩

/-- The numeral at the front of a text. -/
def scanNumeral (cs : List Char) : Except Stop (Token × List Char) :=
  match (Numeral.scan cs).1.value? with
  | some n => .ok (.number n, (Numeral.scan cs).2)
  | none => .error ⟨.invalidNumber (String.ofList (Numeral.scan cs).1.text), cs⟩

/-- The token at the front of a text that starts with no trivia, and the text after it. -/
def scanToken : List Char → Except Stop (Token × List Char)
  | [] => .error ⟨.unexpectedEnd, []⟩
  | '/' :: '*' :: cs => .error ⟨.unexpectedEnd, '/' :: '*' :: cs⟩
  | c :: cs =>
    match Mark.ofChar? c with
    | some m => .ok (.mark m, cs)
    | none =>
      if c = '"' ∨ c = '\'' then scanQuoted c cs
      else if isNumeralStart c then scanNumeral (c :: cs)
      else if isWordStart c then
        .ok (.word (String.ofList (c :: cs.takeWhile isWordRest)), cs.dropWhile isWordRest)
      else .error ⟨.unexpectedChar c, c :: cs⟩

/-- A token, the text from it on, and the text after it. -/
structure Lexeme where
  token : Token
  start : List Char
  stop : List Char
  deriving DecidableEq, Repr

/-! ### The rest is shorter -/

theorem scanQuoted_length {quote : Char} {cs rest : List Char} {t : Token}
    (h : scanQuoted quote cs = .ok (t, rest)) : rest.length < cs.length := by
  unfold scanQuoted at h
  split at h
  · next body r hr =>
    obtain ⟨_, rfl⟩ := Prod.mk.inj (Except.ok.inj h)
    exact stringBody_length hr
  · cases h
  · cases h

theorem Numeral.scanSign_length (cs : List Char) : (scanSign cs).2.length ≤ cs.length := by
  unfold scanSign
  split <;> simp

theorem dropWhile_length_le (p : Char → Bool) (cs : List Char) :
    (cs.dropWhile p).length ≤ cs.length :=
  (List.dropWhile_sublist p).length_le

theorem Numeral.scanFraction_length (cs : List Char) :
    (scanFraction cs).2.length ≤ cs.length := by
  unfold scanFraction
  split
  · next cs =>
    have := dropWhile_length_le Char.isDigit cs
    simp only [scanDigits, List.length_cons]
    omega
  · simp

theorem Numeral.scanExponent_length (cs : List Char) :
    (scanExponent cs).2.length ≤ cs.length := by
  unfold scanExponent
  split
  · next c cs =>
    split
    · have h1 := scanSign_length cs
      have h2 := dropWhile_length_le Char.isDigit (scanSign cs).2
      simp only [scanDigits, List.length_cons]
      omega
    · simp
  · simp

theorem Numeral.scan_length {c : Char} (h : isNumeralStart c = true) (cs : List Char) :
    (scan (c :: cs)).2.length < (c :: cs).length := by
  have hd := fun (ds : List Char) => dropWhile_length_le Char.isDigit ds
  have hw := fun (ds : List Char) => dropWhile_length_le isWordRest ds
  have key : ∀ ds : List Char, (scanFraction ds).2.length ≤ cs.length →
      ((scanExponent (scanFraction ds).2).2.dropWhile isWordRest).length ≤ cs.length := by
    intro ds hds
    have h1 := scanExponent_length (scanFraction ds).2
    have h2 := hw (scanExponent (scanFraction ds).2).2
    omega
  have hfr := fun (ds : List Char) => scanFraction_length ds
  simp only [isNumeralStart, Bool.or_eq_true, beq_iff_eq] at h
  simp only [scan, scanDigits, List.length_cons]
  apply Nat.lt_succ_of_le
  apply key
  by_cases h1 : c = '-'
  · subst h1
    have := hfr (cs.dropWhile Char.isDigit)
    have := hd cs
    simp only [scanSign]
    omega
  by_cases h2 : c = '+'
  · subst h2
    have := hfr (cs.dropWhile Char.isDigit)
    have := hd cs
    simp only [scanSign]
    omega
  have hs : scanSign (c :: cs) = ([], c :: cs) := by
    unfold scanSign
    split
    · next he => exact absurd (List.cons.inj he).1 h1
    · next he => exact absurd (List.cons.inj he).1 h2
    · rfl
  rw [hs]
  by_cases h3 : c.isDigit = true
  · simp only [List.dropWhile_cons, h3, if_true]
    have := hfr (cs.dropWhile Char.isDigit)
    have := hd cs
    omega
  · have h4 : c = '.' := by simp_all
    subst h4
    have : List.dropWhile Char.isDigit ('.' :: cs) = '.' :: cs := by
      rw [List.dropWhile_cons_of_neg (by decide)]
    rw [this]
    simpa only [scanFraction, scanDigits] using hd cs

theorem scanToken_length {cs rest : List Char} {t : Token}
    (h : scanToken cs = .ok (t, rest)) : rest.length < cs.length := by
  unfold scanToken at h
  split at h
  · cases h
  · cases h
  · next c cs _ =>
    split at h
    · obtain ⟨_, rfl⟩ := Prod.mk.inj (Except.ok.inj h)
      simp
    · split at h
      · have := scanQuoted_length h
        simp only [List.length_cons]
        omega
      · split at h
        · next hn =>
          unfold scanNumeral at h
          split at h
          · obtain ⟨_, rfl⟩ := Prod.mk.inj (Except.ok.inj h)
            exact Numeral.scan_length hn cs
          · cases h
        · split at h
          · obtain ⟨_, rfl⟩ := Prod.mk.inj (Except.ok.inj h)
            have := dropWhile_length_le isWordRest cs
            simp only [List.length_cons]
            omega
          · cases h

namespace Lexeme

/-- The first lexeme of a text, none if only trivia is left. -/
def next? (cs : List Char) : Except Stop (Option Lexeme) :=
  match Text.afterTrivia cs with
  | [] => .ok none
  | c :: rest => (scanToken (c :: rest)).map fun r => some ⟨r.1, c :: rest, r.2⟩

theorem next?_length {cs : List Char} {l : Lexeme} (h : next? cs = .ok (some l)) :
    l.stop.length < cs.length := by
  have ht := Text.afterTrivia_length_le cs
  unfold next? at h
  split at h
  · cases Except.ok.inj h
  · next c rest hc =>
    cases hs : scanToken (c :: rest) with
    | error e => rw [hs] at h; cases h
    | ok p =>
      obtain ⟨t, rest'⟩ := p
      rw [hs] at h
      obtain rfl := Option.some.inj (Except.ok.inj h)
      have := scanToken_length hs
      rw [hc] at ht
      simp only
      omega

/-- The lexemes of a text, and the fault that ends them if they do not reach its end. -/
def all (cs : List Char) : List Lexeme × Option Stop :=
  match _h : next? cs with
  | .error s => ([], some s)
  | .ok none => ([], none)
  | .ok (some l) =>
    let following := all l.stop
    (l :: following.1, following.2)
termination_by cs.length
decreasing_by all_goals exact next?_length ‹next? cs = .ok (some l)›

end Lexeme

end ScriptBundle
