import ScriptBundle.Proofs.Literal.Padding

/-!
# Line endings

A line may end with a line feed, or with a carriage return and a line feed.  Between tokens this makes no
difference: the carriage return is a blank, it belongs to the comment that the line feed ends, or it stands
in a block comment.  Within a token a line feed stands behind a backslash in a quoted text, where it is
dropped.  A carriage return behind a backslash is not, and the line feed behind it ends the line within the
quotes.

## Main definitions

* `Text.addReturns`: a text with a carriage return in front of each of its line feeds.
* `Lexeme.text`: the characters of a token.

## Main results

* `Text.Trivia.addReturns`: trivia stays trivia.
* `stringBody_addReturns`: a quoted text keeps its content, or it ends at the first of its line feeds.
* `next?_addReturns`, `all_addReturns`: what becomes of one token, and of all of them.
* `Literal.decode_addReturns`: **the other line endings leave the value of a literal as it is, just if there
  are no line feeds within its tokens.**
-/

namespace ScriptBundle

variable {cs r s body : List Char} {c quote : Char} {t : Token} {l : Lexeme}

namespace Text

/-- The text with a carriage return in front of each of its line feeds. -/
def addReturns (cs : List Char) : List Char := cs.flatMap fun c => if c = '\n' then ['\r', '\n'] else [c]

theorem addReturns_append (cs ds : List Char) : addReturns (cs ++ ds) = addReturns cs ++ addReturns ds :=
  List.flatMap_append

theorem addReturns_feed (cs : List Char) : addReturns ('\n' :: cs) = '\r' :: '\n' :: addReturns cs := rfl

theorem addReturns_cons (h : c ≠ '\n') (cs : List Char) : addReturns (c :: cs) = c :: addReturns cs := by
  rw [addReturns, List.flatMap_cons, if_neg h]
  rfl

theorem addReturns_eq_self (h : '\n' ∉ cs) : addReturns cs = cs := by
  induction cs with
  | nil => rfl
  | cons c cs ih =>
    rw [List.mem_cons, not_or] at h
    rw [addReturns_cons (Ne.symm h.1), ih h.2]

/-! ### Between tokens -/

theorem head?_addReturns (h : (addReturns cs).head? = some c) (hc : c ≠ '\r') : cs.head? = some c := by
  cases cs with
  | nil => cases h
  | cons d cs =>
    by_cases hd : d = '\n'
    · subst hd
      exact absurd (Option.some.inj h).symm hc
    · rwa [addReturns_cons hd] at h

/-- A comment is not closed earlier. -/
theorem not_closing_addReturns (h : ¬ ['*', '/'] <:+: body) : ¬ ['*', '/'] <:+: addReturns body := by
  induction body with
  | nil => exact h
  | cons c body ih =>
    have hbody := ih fun hclosing => h (hclosing.trans (List.suffix_cons c body).isInfix)
    by_cases hc : c = '\n'
    · subst hc
      simpa [addReturns_feed, List.infix_cons_iff] using hbody
    · rw [addReturns_cons hc]
      intro hclosing
      rcases List.infix_cons_iff.1 hclosing with hfirst | hclosing
      · obtain ⟨rfl, hslash⟩ := List.cons_prefix_cons.1 hfirst
        obtain ⟨after, hafter⟩ := hslash
        have hhead : body.head? = some '/' := head?_addReturns (by rw [← hafter]; rfl) (by decide)
        obtain ⟨body, rfl⟩ := List.head?_eq_some_iff.1 hhead
        exact h ⟨[], body, rfl⟩
      · exact hbody hclosing

/-- Trivia stays trivia. -/
theorem Trivia.addReturns (h : Trivia cs) : Trivia (addReturns cs) := by
  induction h with
  | nil => exact .nil
  | @blank c cs hc _ ih =>
    by_cases hfeed : c = '\n'
    · subst hfeed
      exact .blank rfl (.blank rfl ih)
    · rw [addReturns_cons hfeed]
      exact .blank hc ih
  | @line body cs hbody _ ih =>
    -- the carriage return belongs to the comment
    have hreturn : '\n' ∉ body ++ ['\r'] := by simpa using hbody
    have hline := Trivia.line hreturn ih
    rw [List.append_assoc, List.singleton_append] at hline
    rwa [addReturns_cons (by decide), addReturns_cons (by decide), addReturns_append,
      addReturns_eq_self hbody, addReturns_feed]
  | @block body cs hbody _ ih =>
    rw [addReturns_cons (by decide), addReturns_cons (by decide), addReturns_append,
      addReturns_cons (by decide), addReturns_cons (by decide)]
    exact .block (not_closing_addReturns hbody) ih

theorem TriviaOnly.addReturns (h : TriviaOnly cs) : TriviaOnly (addReturns cs) := by
  obtain ⟨s, rest, hs, rfl, hrest⟩ := h
  refine ⟨Text.addReturns s, rest, hs.addReturns, ?_, hrest⟩
  rw [addReturns_append]
  rcases hrest with rfl | ⟨body, hbody, rfl⟩
  · rfl
  · have hlast : '\n' ∉ '/' :: '/' :: body := by simpa using hbody
    rw [addReturns_eq_self hlast]

end Text

open Text

/-- A text may follow a token with either line endings. -/
theorem mayFollow_addReturns (r : List Char) : MayFollow r (addReturns r) := by
  cases r with
  | nil => exact .inl (.inl rfl)
  | cons c r =>
    by_cases hc : c = '\n'
    · subst hc
      right
      rintro d ⟨⟩
      rfl
    · rw [addReturns_cons hc]
      exact .inl (.inr rfl)

/-! ### Within quoted texts -/

theorem feed_not_mem_of_unicodeEscape (h : unicodeEscape (s ++ r) = .ok (c, r)) : '\n' ∉ s := by
  have hdigits {digits : List Char} {n : Nat} (hn : hexNumber? digits = some n) : '\n' ∉ digits := by
    intro hmem
    obtain ⟨v, hv⟩ := exists_hexValue?_of_mem hn _ hmem
    cases hv
  rcases unicodeEscape_eq_ok_iff.1 h with ⟨n, hquad, -, -⟩ | ⟨high, low, mid, hquad, -, hquad', -, -⟩
  · obtain ⟨digits, heq, -, hn⟩ := hexQuad?_eq_some_iff.1 hquad
    obtain rfl := List.append_cancel_right heq
    exact hdigits hn
  · obtain ⟨digits, heq, -, hn⟩ := hexQuad?_eq_some_iff.1 hquad
    obtain ⟨digits', rfl, -, hn'⟩ := hexQuad?_eq_some_iff.1 hquad'
    have hparts : s ++ r = (digits ++ '\\' :: 'u' :: digits') ++ r := by simpa using heq
    obtain rfl := List.append_cancel_right hparts
    simp [hdigits hn, hdigits hn']

/-- A line feed that stands by itself ends a quoted text without its closing quote. -/
theorem stringBody_feed (quote : Char) (cs : List Char) :
    stringBody quote ('\n' :: cs) = .error .unterminated := by
  rw [stringBody, if_pos (.inl rfl)]
  · exact fun _ hc => absurd hc (by decide)
  · exact fun _ _ hc => absurd hc (by decide)

/-- **A quoted text without line feeds keeps its content, and any other one ends at the first of them.** -/
theorem stringBody_addReturns (h : stringBody quote cs = .ok (body, r)) :
    ∃ s, cs = s ++ r ∧ stringBody quote (addReturns cs)
      = if '\n' ∈ s then .error .unterminated else .ok (body, addReturns r) := by
  fun_induction stringBody quote cs generalizing body r with
  | case1 => cases h
  | case2 => cases h
  | case3 cs c rest hc ih =>
    obtain ⟨p, hp, heq⟩ := map_eq_ok_iff.1 h
    obtain ⟨rfl, rfl⟩ := Prod.mk.inj heq
    obtain ⟨u, rfl, hescape⟩ := exists_unicodeEscape hc
    obtain ⟨s, hrest, hbody⟩ := ih hp
    have hu := feed_not_mem_of_unicodeEscape hc
    refine ⟨'\\' :: 'u' :: (u ++ s), by simp [← hrest], ?_⟩
    rw [addReturns_cons (by decide), addReturns_cons (by decide), addReturns_append,
      addReturns_eq_self hu, stringBody_unicode (hescape _), hbody, map_ite_error]
    simp [hu]
  | case4 c cs hu ih =>
    obtain ⟨p, hp, heq⟩ := map_eq_ok_iff.1 h
    obtain ⟨rfl, rfl⟩ := Prod.mk.inj heq
    obtain ⟨s, hs, hbody⟩ := ih hp
    refine ⟨'\\' :: c :: s, by simp [← hs], ?_⟩
    by_cases hc : c = '\n'
    · -- now the carriage return is what the backslash stands in front of
      subst hc
      rw [addReturns_cons (by decide), addReturns_feed, stringBody_escape (by decide), stringBody_feed,
        if_pos (by simp)]
      rfl
    · rw [addReturns_cons (by decide), addReturns_cons hc, stringBody_escape hu, hbody, map_ite_error]
      simp [Ne.symm hc]
  | case5 => cases h
  | case6 cs _ _ hbreak =>
    cases h
    have hquote : quote ≠ '\n' := fun heq => hbreak (.inl heq)
    refine ⟨[quote], rfl, ?_⟩
    rw [addReturns_cons hquote, stringBody_quote hbreak, if_neg (by simpa using hquote.symm)]
  | case7 c cs _ _ hbreak hclose ih =>
    obtain ⟨p, hp, heq⟩ := map_eq_ok_iff.1 h
    obtain ⟨rfl, rfl⟩ := Prod.mk.inj heq
    obtain ⟨s, hs, hbody⟩ := ih hp
    have hc : c ≠ '\n' := fun heq => hbreak (.inl heq)
    refine ⟨c :: s, by simp [← hs], ?_⟩
    rw [addReturns_cons hc, stringBody_other hbreak hclose, hbody, map_ite_error]
    simp [hc.symm]

/-! ### Tokens -/

/-- Words and numbers hold no line feeds. -/
theorem feed_not_mem_of_plain {f : List Char → α × List Char} (hplain : TakesPlain f)
    (h : (f (s ++ r)).2 = r) : '\n' ∉ s := by
  obtain ⟨s', hs', hplain⟩ := hplain (s ++ r)
  rw [h] at hs'
  obtain rfl := List.append_cancel_right hs'
  intro hmem
  cases hplain _ hmem

/-- **A token without line feeds is scanned with either line endings, and any other one is a quoted text that
does not end any more.** -/
theorem scanToken_addReturns (h : scanToken (s ++ r) = .ok (t, r)) :
    scanToken (addReturns (s ++ r)) = if '\n' ∈ s then .error ⟨.unterminatedString, addReturns (s ++ r)⟩
      else .ok (t, addReturns r) := by
  by_cases hs : '\n' ∈ s
  · rw [if_pos hs]
    rcases scanToken_cases h with ⟨m, rfl, heq⟩ | ⟨quote, cs, hquote, heq, hquoted⟩ |
      ⟨d, cs, hstart, heq, hnumeral⟩ | ⟨d, cs, hstart, heq, rfl, hrest⟩
    · obtain rfl : s = [m.char] := List.append_cancel_right heq
      cases m <;> exact absurd hs (by decide)
    · obtain ⟨body, hbody, rfl⟩ := scanQuoted_eq_ok_iff.1 hquoted
      obtain ⟨s', rfl, hbody'⟩ := stringBody_addReturns hbody
      obtain rfl : s = quote :: s' := List.append_cancel_right heq
      have hquoteFeed : quote ≠ '\n' := by rcases hquote with rfl | rfl <;> decide
      have hs' : '\n' ∈ s' := (List.mem_cons.1 hs).resolve_left hquoteFeed.symm
      rw [List.cons_append, addReturns_cons hquoteFeed, scanToken_quote hquote, scanQuoted, hbody', if_pos hs']
    · obtain ⟨n, -, -, hrest⟩ := scanNumeral_eq_ok_iff.1 hnumeral
      exact absurd hs (feed_not_mem_of_plain Numeral.takesPlain_scan hrest)
    · obtain ⟨e, s, rfl⟩ := List.exists_cons_of_ne_nil (List.ne_nil_of_mem hs)
      obtain ⟨rfl, rfl⟩ := List.cons.inj heq
      rcases List.mem_cons.1 hs with rfl | hs
      · cases hstart
      · exact absurd hs (feed_not_mem_of_plain takesPlain_word hrest.symm)
  · rw [if_neg hs, addReturns_append, addReturns_eq_self hs]
    exact scanToken_of_mayFollow h (mayFollow_addReturns r)

namespace Lexeme

/-- The characters of a token. -/
def text (l : Lexeme) : List Char := l.start.take (l.start.length - l.stop.length)

theorem text_eq (h : l.start = s ++ l.stop) : l.text = s := by
  rw [text, h, List.length_append, Nat.add_sub_cancel, List.take_left]

/-- **What becomes of the first token with the other line endings.** -/
theorem next?_addReturns (h : next? cs = .ok (some l)) :
    next? (addReturns cs) = if '\n' ∈ l.text then .error ⟨.unterminatedString, addReturns l.start⟩
      else .ok (some ⟨l.token, addReturns l.start, addReturns l.stop⟩) := by
  obtain ⟨trivia, c, s, htrivia, hcs, hstart, hblank, hslash⟩ := exists_front h
  have hscan := (next?_eq_some_iff.1 h).2
  rw [hstart] at hscan
  have hc : c ≠ '\n' := by
    rintro rfl
    cases hblank
  have hafter : afterTrivia (addReturns cs) = addReturns l.start := by
    rw [hcs, addReturns_append, htrivia.addReturns.afterTrivia_append, hstart, List.cons_append,
      addReturns_cons hc, afterTrivia_eq_self hblank hslash]
  have hnext : next? (addReturns cs)
      = (scanToken (addReturns l.start)).map fun r => some ⟨r.1, addReturns l.start, r.2⟩ := by
    unfold next?
    rw [hafter]
    split
    · next hnil =>
      rw [hstart, List.cons_append, addReturns_cons hc] at hnil
      cases hnil
    · next heq => rw [heq]
  rw [hnext, text_eq hstart, hstart, scanToken_addReturns hscan, map_ite_error]

/-- **All tokens stay as they are if there are no line feeds within them.** -/
theorem sameTokens_addReturns (hfault : (all cs).2 = none) (h : ∀ l ∈ (all cs).1, '\n' ∉ l.text) :
    SameTokens (addReturns cs) cs := by
  induction hlength : cs.length using Nat.strongRecOn generalizing cs with
  | ind n ih =>
    cases hnext : next? cs with
    | error stop => simp [all_of_error hnext] at hfault
    | ok o =>
      cases o with
      | none =>
        have htrivia := afterTrivia_eq_nil_iff.1 (next?_eq_none_iff.1 hnext)
        have hnext' := next?_eq_none_iff.2 (afterTrivia_eq_nil_iff.2 htrivia.addReturns)
        exact sameTokens_of_next? (hnext'.trans hnext.symm)
      | some l =>
        rw [all_of_next? hnext] at hfault h
        obtain ⟨hl, h⟩ := List.forall_mem_cons.1 h
        have hnext' := next?_addReturns hnext
        rw [if_neg hl] at hnext'
        obtain ⟨htokens, hrest⟩ := ih _ (hlength ▸ next?_length hnext) hfault h rfl
        rw [SameTokens, all_of_next? hnext', all_of_next? hnext, List.map_cons, List.map_cons, htokens, hrest]
        exact ⟨rfl, rfl⟩

/-- **The first token with a line feed in it does not end any more.** -/
theorem exists_fault_addReturns (h : ∃ l ∈ (all cs).1, '\n' ∈ l.text) :
    ∃ l ∈ (all cs).1, '\n' ∈ l.text ∧
      (all (addReturns cs)).2 = some ⟨.unterminatedString, addReturns l.start⟩ := by
  induction hlength : cs.length using Nat.strongRecOn generalizing cs with
  | ind n ih =>
    obtain ⟨l', hl', hfeed⟩ := h
    cases hnext : next? cs with
    | error stop => simp [all_of_error hnext] at hl'
    | ok o =>
      cases o with
      | none => simp [all_of_none hnext] at hl'
      | some l =>
        have hnext' := next?_addReturns hnext
        rw [all_of_next? hnext] at hl' ⊢
        by_cases hl : '\n' ∈ l.text
        · rw [if_pos hl] at hnext'
          rw [all_of_error hnext']
          exact ⟨l, List.mem_cons_self, hl, rfl⟩
        · rw [if_neg hl] at hnext'
          have hne : l' ≠ l := by
            rintro rfl
            exact hl hfeed
          have hbehind : ∃ l' ∈ (all l.stop).1, '\n' ∈ l'.text :=
            ⟨l', (List.mem_cons.1 hl').resolve_left hne, hfeed⟩
          obtain ⟨first, hfirst, hfeed, hfault⟩ := ih _ (hlength ▸ next?_length hnext) hbehind rfl
          rw [all_of_next? hnext']
          exact ⟨first, List.mem_cons_of_mem _ hfirst, hfeed, hfault⟩

end Lexeme

/-! ### Literals -/

namespace Literal

open Lexeme

variable {text : String} {v : Value}

/-- A text with a fault in it is no literal. -/
theorem fault_of_decode (h : decode text = .ok v) : (all text.toList).2 = none := by
  obtain ⟨stop, hfront⟩ := decode_eq_ok_iff.1 h
  obtain ⟨ls, -, hall, -⟩ := readFront_eq_ok_iff.1 hfront
  rw [hall]

/-- **With a carriage return in front of each line feed, a literal keeps its value if there are no line feeds
within its tokens, and is refused otherwise.** -/
theorem decode_addReturns (h : decode text = .ok v) :
    (decode (String.ofList (addReturns text.toList)) = .ok v ↔
      ∀ l ∈ (all text.toList).1, '\n' ∉ l.text) ∧
    ((∃ l ∈ (all text.toList).1, '\n' ∈ l.text) →
      ∃ e, decode (String.ofList (addReturns text.toList)) = .error e) := by
  have hrefused (hfeed : ∃ l ∈ (all text.toList).1, '\n' ∈ l.text) :
      ∃ e, decode (String.ofList (addReturns text.toList)) = .error e := by
    obtain ⟨l, -, -, hfault⟩ := exists_fault_addReturns hfeed
    cases hread : decode (String.ofList (addReturns text.toList)) with
    | error e => exact ⟨e, rfl⟩
    | ok w =>
      have hnone := fault_of_decode hread
      rw [String.toList_ofList, hfault] at hnone
      cases hnone
  refine ⟨⟨fun hsame => ?_, fun hfeeds => ?_⟩, hrefused⟩
  · intro l hl hfeed
    obtain ⟨e, he⟩ := hrefused ⟨l, hl, hfeed⟩
    cases hsame.symm.trans he
  · refine decode_of_sameTokens h ?_
    rw [String.toList_ofList]
    exact sameTokens_addReturns (fault_of_decode h) hfeeds

/-- Line feeds behind a comment, within a comment and as a blank, and an escape that stands for one. -/
theorem commentedLines_addReturns :
    ∃ v, decode "[1, // 'a'\n 'b\\n', /* \"\n*/\n\"c\"]" = .ok v ∧
      decode (String.ofList (addReturns "[1, // 'a'\n 'b\\n', /* \"\n*/\n\"c\"]".toList)) = .ok v := by
  have hwhole : (decode "[1, // 'a'\n 'b\\n', /* \"\n*/\n\"c\"]").toOption.isSome = true := by decide +kernel
  have hfeeds : ∀ l ∈ (all "[1, // 'a'\n 'b\\n', /* \"\n*/\n\"c\"]".toList).1, '\n' ∉ l.text := by
    decide +kernel
  obtain ⟨v, hread⟩ := exists_of_isSome hwhole
  exact ⟨v, hread, (decode_addReturns hread).1.2 hfeeds⟩

/-- A line that goes on behind a backslash does so with a line feed only. -/
theorem continuedLine_addReturns :
    '\r' ∉ "'a\\\nb'".toList ∧ decode "'a\\\nb'" = .ok (.text "ab") ∧
      String.ofList (addReturns "'a\\\nb'".toList) = "'a\\\r\nb'" ∧
      decode "'a\\\r\nb'" = .error ⟨.unterminatedString, 0⟩ := by
  have haccepted : all "'a\\\nb'".toList = ([⟨.text "ab", "'a\\\nb'".toList, []⟩], none) := by
    decide +kernel
  have hrefused : all "'a\\\r\nb'".toList = ([], some ⟨.unterminatedString, "'a\\\r\nb'".toList⟩) := by
    decide +kernel
  refine ⟨by decide, ?_, by decide, ?_⟩
  · rw [decode, readAll, readFront, haccepted]
    rfl
  · rw [decode, readAll, readFront, hrefused]
    rfl

end Literal

end ScriptBundle
