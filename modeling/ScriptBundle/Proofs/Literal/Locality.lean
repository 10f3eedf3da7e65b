import ScriptBundle.Proofs.Except
import ScriptBundle.Proofs.Literal.RoundTrip
import ScriptBundle.Proofs.Text.Trivia

/-!
# Scanning does not look ahead

A mark and a quoted text end by themselves.  A word and a number end in front of the first character
that does not belong to them, and of what follows this character is all that is looked at.  So the
tokens of a text are also scanned when something else follows them.

## Main definitions

* `Similar`: a text that is empty or starts like another one.
* `Local`: a reader of characters that looks at no more than the first character behind what it takes.
* `Fits`: what may follow a token in the place of something else.
* `Scans`: lexemes one behind the other.

## Main results

* `local_scan`: numerals are scanned locally.
* `hexQuad?_eq_some_iff`: what the code of an escape is read from.
* `exists_scanToken`, `exists_next?`: **a token is scanned whatever fitting text follows it.**
* `Scans.exists_append`: so are tokens one behind the other.
-/

namespace ScriptBundle

/-! ### The end of a word or a number -/

/-- A text is empty, or it starts like another one. -/
def Similar (r r' : List Char) : Prop := r' = [] ∨ r'.head? = r.head?

theorem Similar.append {r r' : List Char} (h : Similar r r') (s : List Char) : Similar (s ++ r) (s ++ r') := by
  cases s with
  | nil => exact h
  | cons c s => exact .inr rfl

/-- What a reader takes from the front of a text is also taken when something similar follows. -/
def Local {α : Type} (f : List Char → α × List Char) : Prop :=
  ∀ cs, ∃ s, cs = s ++ (f cs).2 ∧ ∀ r', Similar (f cs).2 r' → f (s ++ r') = ((f cs).1, r')

section Local

variable {α β γ : Type} {f : List Char → α × List Char} {g : List Char → β × List Char}

theorem Local.map (hf : Local f) (k : α → γ) : Local fun cs => (k (f cs).1, (f cs).2) := by
  intro cs
  obtain ⟨s, hs, hlocal⟩ := hf cs
  refine ⟨s, hs, ?_⟩
  intro r' hr'
  show (k (f (s ++ r')).1, (f (s ++ r')).2) = _
  rw [hlocal r' hr']

/-- One reader after the other. -/
theorem Local.andThen (hf : Local f) (hg : Local g) :
    Local fun cs => (((f cs).1, (g (f cs).2).1), (g (f cs).2).2) := by
  intro cs
  obtain ⟨s, hs, hlocal⟩ := hf cs
  obtain ⟨s', hs', hlocal'⟩ := hg (f cs).2
  refine ⟨s ++ s', ?_, ?_⟩
  · rw [List.append_assoc, ← hs', ← hs]
  · intro r' hr'
    have hsimilar : Similar (f cs).2 (s' ++ r') := by
      rw [hs']
      exact hr'.append s'
    have hfirst := hlocal _ hsimilar
    have hsecond := hlocal' r' hr'
    show (((f (s ++ s' ++ r')).1, (g (f (s ++ s' ++ r')).2).1), (g (f (s ++ s' ++ r')).2).2) = _
    rw [List.append_assoc, hfirst, hsecond]

/-- A reader that takes nothing from a text takes nothing from a similar one. -/
theorem exists_local_of_nothing {cs : List Char} {a : α} (h : f cs = (a, cs))
    (hsimilar : ∀ r', Similar cs r' → f r' = (a, r')) :
    ∃ s, cs = s ++ (f cs).2 ∧ ∀ r', Similar (f cs).2 r' → f (s ++ r') = ((f cs).1, r') := by
  rw [h]
  exact ⟨[], rfl, hsimilar⟩

theorem local_span (p : Char → Bool) : Local fun cs => (cs.takeWhile p, cs.dropWhile p) := by
  intro cs
  refine ⟨cs.takeWhile p, List.takeWhile_append_dropWhile.symm, ?_⟩
  intro r' hr'
  have htake : ∀ c ∈ cs.takeWhile p, p c = true := List.all_eq_true.1 List.all_takeWhile
  have hnot : r'.takeWhile p = [] ∧ r'.dropWhile p = r' := by
    rcases hr' with rfl | hhead
    · exact ⟨rfl, rfl⟩
    · cases r' with
      | nil => exact ⟨rfl, rfl⟩
      | cons c r' =>
        have hc := List.head?_dropWhile_not p cs
        rw [← hhead] at hc
        have hc : ¬ p c = true := by simpa using hc
        exact ⟨List.takeWhile_cons_of_neg hc, List.dropWhile_cons_of_neg hc⟩
  show (_, _) = _
  rw [List.takeWhile_append_of_pos htake, List.dropWhile_append_of_pos htake, hnot.1, hnot.2,
    List.append_nil]

end Local

/-! ### Numerals -/

namespace Numeral

theorem scanSign_eq_self {cs : List Char} (hminus : cs.head? ≠ some '-') (hplus : cs.head? ≠ some '+') :
    scanSign cs = ([], cs) := by
  unfold scanSign
  split
  · exact absurd rfl hminus
  · exact absurd rfl hplus
  · rfl

theorem local_scanSign : Local scanSign := by
  intro cs
  by_cases hminus : cs.head? = some '-'
  · obtain ⟨cs, rfl⟩ := List.head?_eq_some_iff.1 hminus
    exact ⟨['-'], rfl, fun r' _ => rfl⟩
  by_cases hplus : cs.head? = some '+'
  · obtain ⟨cs, rfl⟩ := List.head?_eq_some_iff.1 hplus
    exact ⟨['+'], rfl, fun r' _ => rfl⟩
  · refine exists_local_of_nothing (scanSign_eq_self hminus hplus) ?_
    rintro r' (rfl | hhead)
    · rfl
    · rw [← hhead] at hminus hplus
      exact scanSign_eq_self hminus hplus

theorem local_scanDigits : Local scanDigits := local_span Char.isDigit

theorem scanFraction_eq_self {cs : List Char} (h : cs.head? ≠ some '.') : scanFraction cs = (none, cs) := by
  unfold scanFraction
  split
  · exact absurd rfl h
  · rfl

theorem local_scanFraction : Local scanFraction := by
  intro cs
  by_cases hpoint : cs.head? = some '.'
  · obtain ⟨cs, rfl⟩ := List.head?_eq_some_iff.1 hpoint
    obtain ⟨s, hs, hlocal⟩ := local_scanDigits cs
    refine ⟨'.' :: s, congrArg ('.' :: ·) hs, ?_⟩
    intro r' hr'
    have hdigits := hlocal r' hr'
    rw [List.cons_append, scanFraction, hdigits]
    rfl
  · refine exists_local_of_nothing (scanFraction_eq_self hpoint) ?_
    rintro r' (rfl | hhead)
    · rfl
    · rw [← hhead] at hpoint
      exact scanFraction_eq_self hpoint

theorem scanExponent_eq_self {cs : List Char} (h : ∀ c ∈ cs.head?, ¬ (c = 'e' ∨ c = 'E')) :
    scanExponent cs = (none, cs) := by
  cases cs with
  | nil => rfl
  | cons c cs => rw [scanExponent, if_neg (h c rfl)]

theorem local_scanExponent : Local scanExponent := by
  intro cs
  by_cases hmark : ∀ c ∈ cs.head?, ¬ (c = 'e' ∨ c = 'E')
  · refine exists_local_of_nothing (scanExponent_eq_self hmark) ?_
    rintro r' (rfl | hhead)
    · rfl
    · rw [← hhead] at hmark
      exact scanExponent_eq_self hmark
  · cases cs with
    | nil => exact absurd (fun _ hc => nomatch hc) hmark
    | cons c cs =>
      have hc : c = 'e' ∨ c = 'E' := by
        refine Decidable.of_not_not fun hc => hmark ?_
        rintro d ⟨⟩
        exact hc
      -- behind the mark stand a sign and digits
      have hmarked : ∀ cs, scanExponent (c :: cs)
          = (some ⟨c, (scanSign cs).1, (scanDigits (scanSign cs).2).1⟩, (scanDigits (scanSign cs).2).2) := by
        intro cs
        rw [scanExponent, if_pos hc]
      obtain ⟨s, hs, hlocal⟩ := (local_scanSign.andThen local_scanDigits).map
        (fun p => some (Exponent.mk c p.1 p.2)) cs
      rw [hmarked]
      refine ⟨c :: s, congrArg (c :: ·) hs, ?_⟩
      intro r' hr'
      rw [List.cons_append, hmarked]
      exact hlocal r' hr'

/-- A numeral is scanned part by part. -/
theorem local_scan : Local scan :=
  ((((local_scanSign.andThen local_scanDigits).andThen local_scanFraction).andThen
    local_scanExponent).andThen (local_span isWordRest)).map
      fun p => Numeral.mk p.1.1.1.1 p.1.1.1.2 p.1.1.2 p.1.2 p.2

end Numeral

/-! ### Quoted texts -/

/-- What is read as a hexadecimal number consists of hexadecimal digits. -/
theorem exists_hexValue?_of_mem {digits : List Char} {n : Nat} (h : hexNumber? digits = some n) :
    ∀ c ∈ digits, ∃ v, hexValue? c = some v := by
  unfold hexNumber? at h
  generalize 0 = start at h
  induction digits generalizing start with
  | nil => exact fun _ hc => absurd hc List.not_mem_nil
  | cons c digits ih =>
    rw [List.foldlM_cons] at h
    obtain ⟨next, hnext, h⟩ := Option.bind_eq_some_iff.1 h
    obtain ⟨v, hv, -⟩ := Option.map_eq_some_iff.1 hnext
    exact List.forall_mem_cons.2 ⟨⟨v, hv⟩, ih next h⟩

/-- Four hexadecimal digits stand at the front of a text. -/
theorem hexQuad?_eq_some_iff {cs r : List Char} {n : Nat} :
    hexQuad? cs = some (n, r) ↔
      ∃ digits, cs = digits ++ r ∧ digits.length = 4 ∧ hexNumber? digits = some n := by
  constructor
  · intro h
    unfold hexQuad? at h
    split at h
    · next a b c d tail =>
      obtain ⟨value, hvalue, heq⟩ := Option.map_eq_some_iff.1 h
      obtain ⟨rfl, rfl⟩ := Prod.mk.inj heq
      exact ⟨[a, b, c, d], rfl, rfl, hvalue⟩
    · cases h
  · rintro ⟨digits, rfl, hlength, hvalue⟩
    rw [hexQuad?_append hlength, hvalue, Option.map_some]

theorem exists_hexQuad? {cs r : List Char} {n : Nat} (h : hexQuad? cs = some (n, r)) :
    ∃ s, cs = s ++ r ∧ ∀ r', hexQuad? (s ++ r') = some (n, r') := by
  obtain ⟨digits, hcs, hlength, hvalue⟩ := hexQuad?_eq_some_iff.1 h
  exact ⟨digits, hcs, fun r' => hexQuad?_eq_some_iff.2 ⟨digits, rfl, hlength, hvalue⟩⟩

/-- A unicode escape gives the code of a character, or two escapes give the halves of a surrogate
pair. -/
theorem unicodeEscape_eq_ok_iff {cs r : List Char} {c : Char} :
    unicodeEscape cs = .ok (c, r) ↔
      (∃ n, hexQuad? cs = some (n, r) ∧ isHighSurrogate n = false ∧ charOf? n = some c) ∨
      ∃ high low mid, hexQuad? cs = some (high, '\\' :: 'u' :: mid) ∧ isHighSurrogate high = true ∧
        hexQuad? mid = some (low, r) ∧ isLowSurrogate low = true ∧
        charOf? (0x10000 + (high - 0xD800) * 0x400 + (low - 0xDC00)) = some c := by
  constructor
  · intro h
    unfold unicodeEscape at h
    split at h
    · cases h
    · next n rest hquad =>
      split at h
      · next hhigh =>
        split at h
        · next mid =>
          split at h
          · cases h
          · next low rest hquad' =>
            split at h
            · next hlow =>
              split at h
              · next c' hchar =>
                cases h
                exact .inr ⟨n, low, mid, hquad, hhigh, hquad', hlow, hchar⟩
              · cases h
            · cases h
        · cases h
      · next hhigh =>
        split at h
        · next c' hchar =>
          cases h
          exact .inl ⟨n, hquad, Bool.eq_false_iff.2 hhigh, hchar⟩
        · cases h
  · rintro (⟨n, hquad, hhigh, hchar⟩ | ⟨high, low, mid, hquad, hhigh, hquad', hlow, hchar⟩)
    · simp [unicodeEscape, hquad, hhigh, hchar]
    · simp [unicodeEscape, hquad, hhigh, hquad', hlow, hchar]

theorem exists_unicodeEscape {cs r : List Char} {c : Char} (h : unicodeEscape cs = .ok (c, r)) :
    ∃ s, cs = s ++ r ∧ ∀ r', unicodeEscape (s ++ r') = .ok (c, r') := by
  rcases unicodeEscape_eq_ok_iff.1 h with
    ⟨n, hquad, hhigh, hchar⟩ | ⟨high, low, mid, hquad, hhigh, hquad', hlow, hchar⟩
  · obtain ⟨s, hs, hlocal⟩ := exists_hexQuad? hquad
    refine ⟨s, hs, ?_⟩
    intro r'
    exact unicodeEscape_eq_ok_iff.2 (.inl ⟨n, hlocal r', hhigh, hchar⟩)
  · obtain ⟨s, rfl, hlocal⟩ := exists_hexQuad? hquad
    obtain ⟨s', rfl, hlocal'⟩ := exists_hexQuad? hquad'
    refine ⟨s ++ '\\' :: 'u' :: s', by simp, ?_⟩
    intro r'
    refine unicodeEscape_eq_ok_iff.2 (.inr ⟨high, low, s' ++ r', ?_, hhigh, hlocal' r', hlow, hchar⟩)
    rw [List.append_assoc]
    exact hlocal _

theorem stringBody_escape {quote c : Char} (h : c ≠ 'u') (cs : List Char) :
    stringBody quote ('\\' :: c :: cs)
      = (stringBody quote cs).map fun r => (simpleEscape quote c ++ r.1, r.2) := by
  rw [stringBody]
  exact h

theorem stringBody_quote {quote : Char} (h : ¬ (quote = '\n' ∨ quote = '\r' ∨ quote = '\\'))
    (cs : List Char) : stringBody quote (quote :: cs) = .ok ([], cs) := by
  rw [stringBody, if_neg h, if_pos rfl]
  · exact fun _ hc => absurd (.inr (.inr hc)) h
  · exact fun _ _ hc => absurd (.inr (.inr hc)) h

theorem stringBody_other {quote c : Char} (hbreak : ¬ (c = '\n' ∨ c = '\r' ∨ c = '\\')) (hquote : c ≠ quote)
    (cs : List Char) :
    stringBody quote (c :: cs) = (stringBody quote cs).map fun r => (c :: r.1, r.2) := by
  rw [stringBody, if_neg hbreak, if_neg hquote]
  · exact fun _ hc => absurd (.inr (.inr hc)) hbreak
  · exact fun _ _ hc => absurd (.inr (.inr hc)) hbreak

/-- The content of a quoted text, whatever follows its closing quote. -/
theorem exists_stringBody {quote : Char} {cs body r : List Char} (h : stringBody quote cs = .ok (body, r)) :
    ∃ s, cs = s ++ r ∧ ∀ r', stringBody quote (s ++ r') = .ok (body, r') := by
  fun_induction stringBody quote cs generalizing body r with
  | case1 => cases h
  | case2 => cases h
  | case3 cs c rest hc ih =>
    obtain ⟨p, hp, heq⟩ := map_eq_ok_iff.1 h
    obtain ⟨rfl, rfl⟩ := Prod.mk.inj heq
    obtain ⟨s, rfl, hescape⟩ := exists_unicodeEscape hc
    obtain ⟨s', hrest, hbody⟩ := ih hp
    refine ⟨'\\' :: 'u' :: (s ++ s'), by simp [← hrest], ?_⟩
    intro r'
    rw [List.cons_append, List.cons_append, List.append_assoc, stringBody_unicode (hescape _), hbody r']
    rfl
  | case4 c cs hu ih =>
    obtain ⟨p, hp, heq⟩ := map_eq_ok_iff.1 h
    obtain ⟨rfl, rfl⟩ := Prod.mk.inj heq
    obtain ⟨s, hs, hbody⟩ := ih hp
    refine ⟨'\\' :: c :: s, by simp [← hs], ?_⟩
    intro r'
    rw [List.cons_append, List.cons_append, stringBody_escape hu, hbody r']
    rfl
  | case5 => cases h
  | case6 cs _ _ hbreak =>
    cases h
    exact ⟨[quote], rfl, fun r' => stringBody_quote hbreak r'⟩
  | case7 c cs _ _ hbreak hquote ih =>
    obtain ⟨p, hp, heq⟩ := map_eq_ok_iff.1 h
    obtain ⟨rfl, rfl⟩ := Prod.mk.inj heq
    obtain ⟨s, hs, hbody⟩ := ih hp
    refine ⟨c :: s, by simp [← hs], ?_⟩
    intro r'
    rw [List.cons_append, stringBody_other hbreak hquote, hbody r']
    rfl

/-! ### Tokens -/

/-- A mark or a quoted text: a token that ends by itself. -/
def Token.isClosed : Token → Bool
  | .mark _ | .text _ => true
  | .number _ | .word _ => false

/-- What may stand behind a token in the place of `r`. -/
def Fits (t : Token) (r r' : List Char) : Prop := t.isClosed = true ∨ Similar r r'

variable {cs r : List Char} {t : Token}

theorem scanToken_quote {quote : Char} (h : quote = '"' ∨ quote = '\'') (cs : List Char) :
    scanToken (quote :: cs) = scanQuoted quote cs := by
  rcases h with rfl | rfl <;> rfl

theorem scanQuoted_eq_ok_iff {quote : Char} :
    scanQuoted quote cs = .ok (t, r) ↔
      ∃ body, stringBody quote cs = .ok (body, r) ∧ t = .text (String.ofList body) := by
  unfold scanQuoted
  split
  · next body rest h =>
    rw [h]
    constructor
    · intro heq
      obtain ⟨rfl, rfl⟩ := Prod.mk.inj (Except.ok.inj heq)
      exact ⟨body, rfl, rfl⟩
    · rintro ⟨body, heq, rfl⟩
      obtain ⟨rfl, rfl⟩ := Prod.mk.inj (Except.ok.inj heq)
      rfl
  · next h => simp [h]
  · next h => simp [h]

theorem scanNumeral_eq_ok_iff :
    scanNumeral cs = .ok (t, r) ↔
      ∃ n, (Numeral.scan cs).1.value? = some n ∧ t = .number n ∧ (Numeral.scan cs).2 = r := by
  unfold scanNumeral
  split
  · next n h => simp [h, eq_comm]
  · next h => simp [h]

/-- What a token is scanned from. -/
theorem scanToken_cases (h : scanToken cs = .ok (t, r)) :
    (∃ m : Mark, t = .mark m ∧ cs = m.char :: r) ∨
    (∃ quote cs', (quote = '"' ∨ quote = '\'') ∧ cs = quote :: cs' ∧ scanQuoted quote cs' = .ok (t, r)) ∨
    (∃ c cs', isNumeralStart c = true ∧ cs = c :: cs' ∧ scanNumeral cs = .ok (t, r)) ∨
    ∃ c cs', isWordStart c = true ∧ cs = c :: cs' ∧
      t = .word (String.ofList (c :: cs'.takeWhile isWordRest)) ∧ r = cs'.dropWhile isWordRest := by
  unfold scanToken at h
  split at h
  · cases h
  · cases h
  · next c cs _ =>
    split at h
    · next m hm =>
      obtain ⟨rfl, rfl⟩ := Prod.mk.inj (Except.ok.inj h)
      exact .inl ⟨m, rfl, congrArg (· :: cs) (Mark.ofChar?_eq_some_iff.1 hm)⟩
    · split at h
      · next hquote => exact .inr (.inl ⟨c, cs, hquote, rfl, h⟩)
      · split at h
        · next hnumeral => exact .inr (.inr (.inl ⟨c, cs, hnumeral, rfl, h⟩))
        · split at h
          · next hword =>
            obtain ⟨rfl, rfl⟩ := Prod.mk.inj (Except.ok.inj h)
            exact .inr (.inr (.inr ⟨c, cs, hword, rfl, rfl, rfl⟩))
          · cases h

/-- A word is scanned up to the first character that does not belong to it. -/
theorem scanToken_wordStart {c : Char} (h : isWordStart c = true) (cs : List Char) :
    scanToken (c :: cs)
      = .ok (.word (String.ofList (c :: cs.takeWhile isWordRest)), cs.dropWhile isWordRest) := by
  have hmark := ofChar?_eq_none h (by rintro (_ | _) <;> rfl)
  rw [scanToken_other hmark (ne_of_test h rfl) (ne_of_test h rfl) (ne_of_test h rfl),
    isNumeralStart_eq_false h, h]
  rfl

/-- **A token is scanned from the same characters whatever fitting text follows it.** -/
theorem exists_scanToken (h : scanToken cs = .ok (t, r)) :
    ∃ c s, cs = c :: s ++ r ∧ c ≠ '/' ∧ ∀ r', Fits t r r' → scanToken (c :: s ++ r') = .ok (t, r') := by
  rcases scanToken_cases h with ⟨m, rfl, rfl⟩ | ⟨quote, cs, hquote, rfl, hscan⟩ |
    ⟨c, cs, hstart, rfl, hscan⟩ | ⟨c, cs, hstart, rfl, rfl, rfl⟩
  · refine ⟨m.char, [], rfl, by cases m <;> decide, ?_⟩
    intro r' _
    exact scanToken_mark m r'
  · obtain ⟨body, hbody, rfl⟩ := scanQuoted_eq_ok_iff.1 hscan
    obtain ⟨s, rfl, hlocal⟩ := exists_stringBody hbody
    refine ⟨quote, s, rfl, by rcases hquote with rfl | rfl <;> decide, ?_⟩
    intro r' _
    rw [List.cons_append, scanToken_quote hquote]
    exact scanQuoted_eq_ok_iff.2 ⟨body, hlocal r', rfl⟩
  · obtain ⟨n, hn, rfl, rfl⟩ := scanNumeral_eq_ok_iff.1 hscan
    obtain ⟨s, hs, hlocal⟩ := Numeral.local_scan (c :: cs)
    have hlength := Numeral.scan_length hstart cs
    cases s with
    | nil =>
      rw [List.nil_append] at hs
      rw [← hs] at hlength
      exact absurd hlength (Nat.lt_irrefl _)
    | cons d s =>
      obtain rfl := (List.cons.inj hs).1
      refine ⟨c, s, hs, ne_of_test hstart rfl, ?_⟩
      rintro r' (hclosed | hsimilar)
      · cases hclosed
      · have hscan := hlocal r' hsimilar
        rw [List.cons_append, scanToken_numeral hstart, ← List.cons_append]
        exact scanNumeral_eq_ok_iff.2 ⟨n, by rw [hscan, hn], rfl, by rw [hscan]⟩
  · obtain ⟨s, hs, hlocal⟩ := local_span isWordRest cs
    refine ⟨c, s, congrArg (c :: ·) hs, ne_of_test hstart rfl, ?_⟩
    rintro r' (hclosed | hsimilar)
    · cases hclosed
    · obtain ⟨htake, hdrop⟩ := Prod.mk.inj (hlocal r' hsimilar)
      rw [List.cons_append, scanToken_wordStart hstart, htake, hdrop]

/-! ### Lexemes -/

namespace Lexeme

variable {l last : Lexeme} {ls init following : List Lexeme} {fault : Option Stop}

theorem next?_eq_some_iff :
    next? cs = .ok (some l) ↔ Text.afterTrivia cs = l.start ∧ scanToken l.start = .ok (l.token, l.stop) := by
  unfold next?
  split
  · next hnil =>
    rw [hnil]
    constructor
    · intro h
      cases h
    · rintro ⟨hstart, hscan⟩
      rw [← hstart] at hscan
      cases hscan
  · next c rest hcons =>
    rw [hcons, map_eq_ok_iff]
    constructor
    · rintro ⟨⟨t, r⟩, hscan, heq⟩
      obtain rfl := Option.some.inj heq
      exact ⟨rfl, hscan⟩
    · rintro ⟨hstart, hscan⟩
      obtain ⟨t, start, r⟩ := l
      obtain rfl : c :: rest = start := hstart
      exact ⟨_, hscan, rfl⟩

theorem next?_eq_none_iff : next? cs = .ok none ↔ Text.afterTrivia cs = [] := by
  unfold next?
  split
  · next hnil => exact iff_of_true rfl hnil
  · next c rest hcons =>
    refine iff_of_false (fun h => ?_) (by simp [hcons])
    obtain ⟨_, _, heq⟩ := map_eq_ok_iff.1 h
    cases heq

/-- What is left behind trivia starts with no blank. -/
theorem isBlank_eq_false_of_afterTrivia {c : Char} (h : Text.afterTrivia (c :: cs) = c :: cs) :
    Text.isBlank c = false := by
  refine Bool.eq_false_iff.2 fun hblank => ?_
  have hlength := Text.afterTrivia_length_le cs
  rw [Text.afterTrivia_blank hblank] at h
  rw [h, List.length_cons] at hlength
  omega

/-- In front of a token stands trivia, and the token starts with no blank and no slash. -/
theorem exists_front (h : next? cs = .ok (some l)) :
    ∃ trivia c s, Text.Trivia trivia ∧ cs = trivia ++ l.start ∧ l.start = c :: s ++ l.stop ∧
      Text.isBlank c = false ∧ c ≠ '/' := by
  obtain ⟨hafter, hscan⟩ := next?_eq_some_iff.1 h
  obtain ⟨c, s, hstart, hslash, -⟩ := exists_scanToken hscan
  obtain ⟨trivia, rest, htrivia, hcs, hrest | ⟨hnil, -⟩⟩ := Text.exists_trivia cs
  · obtain rfl : l.start = rest := hafter.symm.trans hrest
    rw [hcs, htrivia.afterTrivia_append, hstart] at hafter
    exact ⟨trivia, c, s, htrivia, hcs, hstart, isBlank_eq_false_of_afterTrivia hafter, hslash⟩
  · rw [← hafter, hnil] at hstart
    cases hstart

/-- Behind trivia stands the token that is scanned there. -/
theorem next?_trivia_append {trivia s : List Char} {c : Char} (htrivia : Text.Trivia trivia)
    (hblank : Text.isBlank c = false) (hslash : c ≠ '/') (h : scanToken (c :: s) = .ok (t, r)) :
    next? (trivia ++ c :: s) = .ok (some ⟨t, c :: s, r⟩) := by
  refine next?_eq_some_iff.2 ⟨?_, h⟩
  rw [htrivia.afterTrivia_append]
  exact afterTrivia_eq_self hblank hslash

/-- **A token is found behind the same trivia whatever fitting text follows it.** -/
theorem exists_next? (h : next? cs = .ok (some l)) :
    ∃ s, s ≠ [] ∧ cs = s ++ l.stop ∧ ∀ r', Fits l.token l.stop r' →
      ∃ l', next? (s ++ r') = .ok (some l') ∧ l'.token = l.token ∧ l'.stop = r' := by
  obtain ⟨trivia, c, s, htrivia, hcs, hstart, hblank, hslash⟩ := exists_front h
  obtain ⟨-, hscan⟩ := next?_eq_some_iff.1 h
  obtain ⟨d, s', hstart', -, hlocal⟩ := exists_scanToken hscan
  rw [hstart] at hcs hstart'
  obtain ⟨rfl, rfl⟩ := List.cons.inj (List.append_cancel_right hstart')
  refine ⟨trivia ++ c :: s, by simp, by rw [hcs, List.append_assoc], ?_⟩
  intro r' hr'
  refine ⟨⟨l.token, c :: s ++ r', r'⟩, ?_, rfl, rfl⟩
  rw [List.append_assoc]
  exact next?_trivia_append htrivia hblank hslash (hlocal r' hr')

/-- Lexemes one behind the other, and the text behind the last one. -/
inductive Scans : List Char → List Lexeme → List Char → Prop where
  | nil (cs : List Char) : Scans cs [] cs
  | cons {cs : List Char} {l : Lexeme} {ls : List Lexeme} {r : List Char} (h : next? cs = .ok (some l))
    (hrest : Scans l.stop ls r) : Scans cs (l :: ls) r

theorem Scans.cuts (h : Scans cs ls r) : Cuts cs ls r := by
  induction h with
  | nil cs => rfl
  | @cons cs l ls r hnext _ ih =>
    have hfirst : Cuts cs [l] l.stop := all_of_next? hnext
    exact hfirst.append ih

/-- The text behind the last lexeme is the one where it stops. -/
theorem Scans.stop_last (h : Scans cs (init ++ [last]) r) : last.stop = r := by
  induction init generalizing cs with
  | nil =>
    obtain _ | ⟨_, hrest⟩ := h
    cases hrest
    rfl
  | cons l init ih =>
    obtain _ | ⟨_, hrest⟩ := h
    exact ih hrest

theorem next?_of_all (h : all cs = (l :: following, fault)) :
    next? cs = .ok (some l) ∧ all l.stop = (following, fault) := by
  rw [all] at h
  split at h
  · cases h
  · cases h
  · next l' hnext =>
    cases h
    exact ⟨hnext, rfl⟩

/-- A text without lexemes and without a fault is trivia. -/
theorem afterTrivia_of_all (h : all cs = ([], none)) : Text.afterTrivia cs = [] := by
  rw [all] at h
  split at h
  · cases h
  · next hnext => exact next?_eq_none_iff.1 hnext
  · cases h

/-- The lexemes of a text stand one behind the other. -/
theorem scans_of_all (h : all cs = (init ++ last :: following, fault)) :
    Scans cs (init ++ [last]) last.stop ∧ all last.stop = (following, fault) := by
  induction init generalizing cs with
  | nil =>
    obtain ⟨hnext, hall⟩ := next?_of_all h
    exact ⟨.cons hnext (.nil _), hall⟩
  | cons l init ih =>
    obtain ⟨hnext, hall⟩ := next?_of_all h
    obtain ⟨hscans, hrest⟩ := ih hall
    exact ⟨.cons hnext hscans, hrest⟩

/-- **The tokens at the front of a text are scanned from the same characters whatever text follows them
that fits the last one.** -/
theorem Scans.exists_append (h : Scans cs (init ++ [last]) r) :
    ∃ s, s ≠ [] ∧ cs = s ++ r ∧ ∀ r', Fits last.token r r' →
      ∃ ls, Scans (s ++ r') ls r' ∧ ls.map token = (init ++ [last]).map token := by
  induction init generalizing cs with
  | nil =>
    obtain _ | ⟨hnext, hrest⟩ := h
    cases hrest
    obtain ⟨s, hs, hcs, hlocal⟩ := exists_next? hnext
    refine ⟨s, hs, hcs, ?_⟩
    intro r' hr'
    obtain ⟨l, hnext', htoken, rfl⟩ := hlocal r' hr'
    exact ⟨[l], .cons hnext' (.nil _), by rw [List.map_singleton, htoken]; rfl⟩
  | cons l init ih =>
    obtain _ | ⟨hnext, hrest⟩ := h
    obtain ⟨s', hs', hstop, hscans⟩ := ih hrest
    obtain ⟨s, hs, hcs, hlocal⟩ := exists_next? hnext
    refine ⟨s ++ s', by simp [hs], by rw [List.append_assoc, ← hstop, hcs], ?_⟩
    intro r' hr'
    -- the text behind the first token still starts with the second one
    have hfits : Fits l.token l.stop (s' ++ r') := by
      rw [hstop]
      obtain ⟨c, s', rfl⟩ := List.exists_cons_of_ne_nil hs'
      exact .inr (.inr rfl)
    obtain ⟨ls, hls, htokens⟩ := hscans r' hr'
    obtain ⟨l', hnext', htoken, hstop'⟩ := hlocal _ hfits
    rw [← hstop'] at hls
    refine ⟨l' :: ls, ?_, by rw [List.map_cons, htoken, htokens]; rfl⟩
    rw [List.append_assoc]
    exact .cons hnext' hls

end Lexeme

end ScriptBundle
