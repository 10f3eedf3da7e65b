import ScriptBundle.Proofs.Literal.Front
import ScriptBundle.Proofs.Script.Pieces

/-!
# Blanks in the place of comments

A literal is read from its tokens, and tokens are scanned from whole pieces: a quoted text is a quotation, a
mark, a word and a number are code, and comments are skipped.  So in a text whose pieces are those of another
one up to some place, the same tokens are scanned up to this place, and behind it, too, if the texts go on
with the same tokens.

## Main definitions

* `isPlain`: the characters of words and numbers.
* `TakesPlain`: a reader takes such characters only.
* `Interchangeable`: texts that go on with the same token.

## Main results

* `stringBody_cut`: a quoted text ends where the quotation ends.
* `SamePieces.exists_next?`: one token is scanned from both texts.
* `SamePieces.exists_readFront`: **texts with the same pieces are read as the same literal.**
* `interchangeable_blank`: a comment and a blank are interchangeable.
-/

namespace ScriptBundle

open Script

/-- The characters of words and numbers. -/
def isPlain (c : Char) : Bool := isWordRest c || isNumeralStart c

/-- No word and no number goes on with a text. -/
def EndsPlain (r : List Char) : Prop := ∀ c ∈ r.head?, isPlain c = false

/-- What a reader takes from the front of a text are plain characters. -/
def TakesPlain {α : Type} (f : List Char → α × List Char) : Prop :=
  ∀ cs, ∃ s, cs = s ++ (f cs).2 ∧ ∀ c ∈ s, isPlain c = true

variable {quote : Char} {cs r r' t t' stop body : List Char} {α : Type}

/-! ### The end of a quoted text -/

theorem ne_of_hexValue? {c d : Char} {n : Nat} (h : hexValue? c = some n) (hd : hexValue? d = none) :
    c ≠ d := by
  rintro rfl
  cases hd.symm.trans h

/-- A hexadecimal digit does not end a quotation. -/
theorem cutQuotation_hexValue {c : Char} {n : Nat} (hquote : quote = '"' ∨ quote = '\'')
    (h : hexValue? c = some n) (cs : List Char) :
    (cutQuotation quote (c :: cs)).2 = (cutQuotation quote cs).2 := by
  rw [cutQuotation_other]
  · exact fun hbackslash => absurd hbackslash (ne_of_hexValue? h rfl)
  · exact ne_of_hexValue? h (by rcases hquote with rfl | rfl <;> rfl)
  · exact fun hbreak => absurd hbreak.1 (ne_of_hexValue? h rfl)

theorem cutQuotation_hexQuad {n : Nat} (hquote : quote = '"' ∨ quote = '\'')
    (h : hexQuad? cs = some (n, r)) : (cutQuotation quote cs).2 = (cutQuotation quote r).2 := by
  obtain ⟨digits, rfl, -, hvalue⟩ := hexQuad?_eq_some_iff.1 h
  have hdigits := exists_hexValue?_of_mem hvalue
  clear h hvalue
  induction digits with
  | nil => rfl
  | cons c digits ih =>
    obtain ⟨⟨v, hv⟩, hdigits⟩ := List.forall_mem_cons.1 hdigits
    rw [List.cons_append, cutQuotation_hexValue hquote hv, ih hdigits]

theorem cutQuotation_unicodeEscape {c : Char} (hquote : quote = '"' ∨ quote = '\'')
    (h : unicodeEscape cs = .ok (c, r)) : (cutQuotation quote cs).2 = (cutQuotation quote r).2 := by
  rcases unicodeEscape_eq_ok_iff.1 h with ⟨n, hquad, -, -⟩ | ⟨high, low, mid, hquad, -, hquad', -, -⟩
  · exact cutQuotation_hexQuad hquote hquad
  · rw [cutQuotation_hexQuad hquote hquad, cutQuotation]
    exact cutQuotation_hexQuad hquote hquad'

/-- A quoted text ends where the quotation ends. -/
theorem stringBody_cut (hquote : quote = '"' ∨ quote = '\'') (h : stringBody quote cs = .ok (body, r)) :
    (cutQuotation quote cs).2 = r := by
  fun_induction stringBody quote cs generalizing body with
  | case1 => cases h
  | case2 => cases h
  | case3 cs c rest hc ih =>
    obtain ⟨p, hp, heq⟩ := map_eq_ok_iff.1 h
    obtain ⟨-, rfl⟩ := Prod.mk.inj heq
    rw [cutQuotation, cutQuotation_unicodeEscape hquote hc]
    exact ih hp
  | case4 c cs hu ih =>
    obtain ⟨p, hp, heq⟩ := map_eq_ok_iff.1 h
    obtain ⟨-, rfl⟩ := Prod.mk.inj heq
    rw [cutQuotation]
    exact ih hp
  | case5 => cases h
  | case6 cs _ _ hbreak =>
    cases h
    rw [cutQuotation_quote fun hbackslash => absurd (.inr (.inr hbackslash)) hbreak]
  | case7 c cs _ _ hbreak hclose ih =>
    obtain ⟨p, hp, heq⟩ := map_eq_ok_iff.1 h
    obtain ⟨-, rfl⟩ := Prod.mk.inj heq
    rw [cutQuotation_other (fun hbackslash => absurd (.inr (.inr hbackslash)) hbreak) hclose
      fun hline => hbreak (.inl hline.1)]
    exact ih hp

/-! ### The end of a word or a number -/

theorem isPlain_of_isWordRest {c : Char} (h : isWordRest c = true) : isPlain c = true := by
  simp [isPlain, h]

theorem isPlain_of_isNumeralStart {c : Char} (h : isNumeralStart c = true) : isPlain c = true := by
  simp [isPlain, h]

theorem isPlain_of_isDigit {c : Char} (h : c.isDigit = true) : isPlain c = true :=
  isPlain_of_isNumeralStart (by simp [isNumeralStart, h])

theorem isPlain_of_mem_takeWhile {p : Char → Bool} (hp : ∀ c, p c = true → isPlain c = true) :
    ∀ c ∈ cs.takeWhile p, isPlain c = true :=
  fun c hc => hp c (List.all_eq_true.1 List.all_takeWhile c hc)

namespace Numeral

theorem isPlain_of_mem_scanSign : ∀ c ∈ (scanSign cs).1, isPlain c = true := by
  unfold scanSign
  split <;> simp [isPlain, isNumeralStart]

theorem isPlain_of_mem_scanDigits : ∀ c ∈ (scanDigits cs).1, isPlain c = true :=
  isPlain_of_mem_takeWhile fun _ => isPlain_of_isDigit

theorem isPlain_of_mem_scanFraction : ∀ c ∈ (scanFraction cs).1.elim [] ('.' :: ·), isPlain c = true := by
  unfold scanFraction
  split
  · intro c hc
    rcases List.mem_cons.1 hc with rfl | hc
    · rfl
    · exact isPlain_of_mem_scanDigits c hc
  · simp

theorem isPlain_of_mem_scanExponent :
    ∀ c ∈ (scanExponent cs).1.elim [] Exponent.text, isPlain c = true := by
  unfold scanExponent
  split
  · next c cs =>
    split
    · next hmark =>
      intro d hd
      rcases List.mem_cons.1 hd with rfl | hd
      · rcases hmark with rfl | rfl <;> rfl
      · rcases List.mem_append.1 hd with hd | hd
        · exact isPlain_of_mem_scanSign d hd
        · exact isPlain_of_mem_scanDigits d hd
    · simp
  · simp

/-- A numeral is made of plain characters. -/
theorem isPlain_of_mem_scan : ∀ c ∈ (scan cs).1.text, isPlain c = true := by
  intro c hc
  simp only [scan, text, List.mem_append] at hc
  rcases hc with (((hc | hc) | hc) | hc) | hc
  · exact isPlain_of_mem_scanSign c hc
  · exact isPlain_of_mem_scanDigits c hc
  · exact isPlain_of_mem_scanFraction c hc
  · exact isPlain_of_mem_scanExponent c hc
  · exact isPlain_of_mem_takeWhile (fun _ => isPlain_of_isWordRest) c hc

theorem takesPlain_scan : TakesPlain scan :=
  fun cs => ⟨_, (scan_append cs).symm, isPlain_of_mem_scan⟩

end Numeral

theorem takesPlain_word : TakesPlain fun cs => (cs.takeWhile isWordRest, cs.dropWhile isWordRest) :=
  fun _ => ⟨_, List.takeWhile_append_dropWhile.symm, isPlain_of_mem_takeWhile fun _ => isPlain_of_isWordRest⟩

/-- A reader that takes plain characters only stops where they end. -/
theorem Local.of_ends {f : List Char → α × List Char} (hf : Local f) (hplain : TakesPlain f)
    {s : List Char} {a : α} (h : f (s ++ r) = (a, r)) (hr' : Similar r r' ∨ EndsPlain r') :
    f (s ++ r') = (a, r') := by
  obtain ⟨s₁, hs₁, hlocal⟩ := hf (s ++ r)
  rw [h] at hs₁ hlocal
  obtain rfl := List.append_cancel_right hs₁
  rcases hr' with hsimilar | hends
  · exact hlocal r' hsimilar
  -- nothing of `r'` is taken, and so the reader stops where it stops at the end of `s`
  have halone : f (s ++ []) = (a, []) := hlocal [] (.inl rfl)
  obtain ⟨s', hs', hlocal'⟩ := hf (s ++ r')
  obtain ⟨s₂, hs₂, hplain⟩ := hplain (s ++ r')
  obtain rfl : s₂ = s' := List.append_cancel_right (hs₂.symm.trans hs')
  have hstop : (f (s ++ r')).2 = r' ∧ (f (s ++ r')).1 = a := by
    rcases List.append_eq_append_iff.1 hs' with ⟨u, rfl, hu⟩ | ⟨u, rfl, hu⟩
    · obtain rfl : u = [] := by
        cases u with
        | nil => rfl
        | cons c u =>
          have hc := hends c (by rw [hu]; rfl)
          cases hc.symm.trans (hplain c (by simp))
      have htaken := hlocal' [] (.inl rfl)
      rw [List.append_nil] at htaken
      exact ⟨hu.symm, (Prod.mk.inj (htaken.symm.trans halone)).1⟩
    · have hsimilar : Similar (f (s₂ ++ u ++ r')).2 u := by
        rw [hu]
        cases u with
        | nil => exact .inl rfl
        | cons c u => exact .inr rfl
      have htaken := hlocal' u hsimilar
      rw [List.append_nil] at halone
      obtain ⟨ha, rfl⟩ := Prod.mk.inj (htaken.symm.trans halone)
      exact ⟨hu, ha⟩
  exact Prod.ext hstop.2 hstop.1

/-! ### Tokens of texts with the same pieces -/

/-- Texts with which no word and no number goes on, and that go on with the same token. -/
structure Interchangeable (t t' : List Char) : Prop where
  ends : EndsPlain t
  ends' : EndsPlain t'
  next?_iff : ∀ l, Lexeme.next? t = .ok (some l) ↔ Lexeme.next? t' = .ok (some l)

theorem Interchangeable.symm (h : Interchangeable t t') : Interchangeable t' t :=
  ⟨h.ends', h.ends, fun l => (h.next?_iff l).symm⟩

theorem Lexeme.next?_congr {cs cs' : List Char} (h : Text.afterTrivia cs = Text.afterTrivia cs') :
    next? cs = next? cs' := by
  unfold next?
  rw [h]

/-- A comment in front of a token is skipped. -/
theorem next?_comment_iff {text : List Char} {l : Lexeme} (h : Piece ⟨.comment, text⟩ r) :
    Lexeme.next? (text ++ r) = .ok (some l) ↔ Lexeme.next? r = .ok (some l) := by
  rcases h.afterTrivia_comment with heq | ⟨rfl, body, rfl, hself⟩
  · rw [Lexeme.next?_congr heq]
  · rw [List.append_nil, Lexeme.next?_eq_some_iff, Lexeme.next?_eq_some_iff, hself, Text.afterTrivia_nil]
    constructor
    · rintro ⟨hstart, hscan⟩
      rw [← hstart] at hscan
      cases hscan
    · rintro ⟨hstart, hscan⟩
      rw [← hstart] at hscan
      cases hscan

/-- What does not start with trivia is scanned as it is. -/
theorem next?_of_afterTrivia {cs : List Char} {token : Token} (hself : Text.afterTrivia cs = cs)
    (hscan : scanToken cs = .ok (token, stop)) : Lexeme.next? cs = .ok (some ⟨token, cs, stop⟩) :=
  Lexeme.next?_eq_some_iff.2 ⟨hself, hscan⟩

theorem scanToken_of_next? {cs : List Char} {l : Lexeme} (hself : Text.afterTrivia cs = cs)
    (hnext : Lexeme.next? cs = .ok (some l)) : scanToken cs = .ok (l.token, l.stop) := by
  obtain ⟨hstart, hscan⟩ := Lexeme.next?_eq_some_iff.1 hnext
  rwa [← hstart, hself] at hscan

namespace Script.SamePieces

/-- Plain characters stand in front of both texts. -/
theorem exists_plain {s : List Char} (hends : EndsPlain t) (h : SamePieces t t' (s ++ r) r')
    (hs : ∀ c ∈ s, isPlain c = true) : ∃ rest, r' = s ++ rest ∧ SamePieces t t' r rest := by
  induction s generalizing r' with
  | nil => exact ⟨r', rfl, h⟩
  | cons c s ih =>
    have hc := hs c List.mem_cons_self
    generalize hcs : c :: s ++ r = cs at h
    cases h with
    | refl =>
      obtain rfl := hcs
      exact ⟨r, rfl, .refl r⟩
    | split =>
      obtain rfl := hcs
      cases hc.symm.trans (hends c rfl)
    | @piece seg r₁ r₁' h h' hrest =>
      cases h with
      | code =>
        obtain ⟨rfl, rfl⟩ := List.cons.inj hcs
        obtain ⟨rest, rfl, hsame⟩ := ih hrest fun d hd => hs d (List.mem_cons_of_mem _ hd)
        exact ⟨rest, rfl, hsame⟩
      | quotation hquote =>
        obtain ⟨rfl, -⟩ := List.cons.inj hcs
        rcases hquote with rfl | rfl | rfl <;> cases hc
      | line =>
        obtain ⟨rfl, -⟩ := List.cons.inj hcs
        cases hc
      | block =>
        obtain ⟨rfl, -⟩ := List.cons.inj hcs
        cases hc

/-- What stands behind plain characters does not make them longer. -/
theorem similar_or_ends (hends : EndsPlain t') (h : SamePieces t t' r r') : Similar r r' ∨ EndsPlain r' := by
  cases h with
  | refl => exact .inl (.inr rfl)
  | split => exact .inr hends
  | piece h _ _ =>
    obtain ⟨c, text, htext⟩ := h.exists_text
    rw [htext]
    exact .inl (.inr rfl)

/-- A word or a number is taken from both texts. -/
theorem exists_taken (hinter : Interchangeable t t') {f : List Char → α × List Char} (hf : Local f)
    (hplain : TakesPlain f) (h : SamePieces t t' r r') :
    (f r').1 = (f r).1 ∧ SamePieces t t' (f r).2 (f r').2 := by
  obtain ⟨s, hs, hchars⟩ := hplain r
  rw [hs] at h
  obtain ⟨rest, rfl, hrest⟩ := h.exists_plain hinter.ends hchars
  have htaken : f (s ++ rest) = ((f r).1, rest) :=
    hf.of_ends hplain (r := (f r).2) (by rw [← hs]) (hrest.similar_or_ends hinter.ends')
  rw [htaken]
  exact ⟨rfl, hrest⟩

/-- A token that starts with code is scanned from both texts. -/
theorem exists_scanToken_code {c : Char} {token : Token} (hinter : Interchangeable t t')
    (h : Piece ⟨.code, [c]⟩ r) (h' : Piece ⟨.code, [c]⟩ r') (hrest : SamePieces t t' r r')
    (hscan : scanToken (c :: r) = .ok (token, stop)) :
    ∃ stop', scanToken (c :: r') = .ok (token, stop') ∧ SamePieces t t' stop stop' := by
  rcases scanToken_cases hscan with ⟨m, rfl, hm⟩ | ⟨quote, cs, hquote, hcs, -⟩ |
    ⟨d, cs, hstart, hcs, hnumeral⟩ | ⟨d, cs, hstart, hcs, rfl, rfl⟩
  · obtain ⟨rfl, rfl⟩ := List.cons.inj hm
    exact ⟨r', scanToken_mark m r', hrest⟩
  · obtain ⟨rfl, -⟩ := List.cons.inj hcs
    cases h with
    | code hnot _ => exact absurd (hquote.imp_right .inl) hnot
  · obtain ⟨rfl, rfl⟩ := List.cons.inj hcs
    obtain ⟨n, hn, rfl, rfl⟩ := scanNumeral_eq_ok_iff.1 hnumeral
    have hcode : SamePieces t t' (c :: r) (c :: r') := .piece h h' hrest
    obtain ⟨hsame, hstop⟩ := exists_taken hinter Numeral.local_scan Numeral.takesPlain_scan hcode
    refine ⟨_, ?_, hstop⟩
    rw [scanToken_numeral hstart]
    exact scanNumeral_eq_ok_iff.2 ⟨n, by rw [hsame, hn], rfl, rfl⟩
  · obtain ⟨rfl, rfl⟩ := List.cons.inj hcs
    obtain ⟨hsame, hstop⟩ : r'.takeWhile isWordRest = r.takeWhile isWordRest ∧
        SamePieces t t' (r.dropWhile isWordRest) (r'.dropWhile isWordRest) :=
      exists_taken hinter (local_span isWordRest) takesPlain_word hrest
    refine ⟨_, ?_, hstop⟩
    rw [scanToken_wordStart hstart, hsame]

/-- A quoted text is scanned from both texts. -/
theorem exists_scanToken_quotation {token : Token}
    (h : Piece ⟨.quotation, quote :: body⟩ r) (h' : Piece ⟨.quotation, quote :: body⟩ r')
    (hscan : scanToken (quote :: (body ++ r)) = .ok (token, stop)) :
    stop = r ∧ scanToken (quote :: (body ++ r')) = .ok (token, r') := by
  obtain ⟨hmarks, hcut⟩ : (quote = '"' ∨ quote = '\'' ∨ quote = '\x60') ∧
      cutQuotation quote (body ++ r) = (body, r) := by
    cases h with
    | quotation hmarks hcut => exact ⟨hmarks, hcut⟩
  rcases scanToken_cases hscan with ⟨m, -, hm⟩ | ⟨d, cs, hquote, hcs, hquoted⟩ |
    ⟨d, cs, hstart, hcs, -⟩ | ⟨d, cs, hstart, hcs, -, -⟩
  · obtain ⟨rfl, -⟩ := List.cons.inj hm
    have hmark : ¬ (m.char = '"' ∨ m.char = '\'' ∨ m.char = '\x60') := by cases m <;> decide
    exact absurd hmarks hmark
  · obtain ⟨rfl, rfl⟩ := List.cons.inj hcs
    obtain ⟨content, hcontent, rfl⟩ := scanQuoted_eq_ok_iff.1 hquoted
    obtain rfl : r = stop := by
      rw [← stringBody_cut hquote hcontent, hcut]
    obtain ⟨s, hs, hlocal⟩ := exists_stringBody hcontent
    obtain rfl := List.append_cancel_right hs
    refine ⟨rfl, ?_⟩
    rw [scanToken_quote hquote]
    exact scanQuoted_eq_ok_iff.2 ⟨content, hlocal r', rfl⟩
  · obtain ⟨rfl, -⟩ := List.cons.inj hcs
    rcases hmarks with rfl | rfl | rfl <;> cases hstart
  · obtain ⟨rfl, -⟩ := List.cons.inj hcs
    rcases hmarks with rfl | rfl | rfl <;> cases hstart

/-- **One token is scanned from both texts.** -/
theorem exists_next? {l : Lexeme} (hinter : Interchangeable t t') (h : SamePieces t t' r r')
    (hnext : Lexeme.next? r = .ok (some l)) :
    ∃ l', Lexeme.next? r' = .ok (some l') ∧ l'.token = l.token ∧ SamePieces t t' l.stop l'.stop := by
  induction h with
  | refl r => exact ⟨l, hnext, rfl, .refl _⟩
  | split => exact ⟨l, (hinter.next?_iff l).1 hnext, rfl, .refl _⟩
  | @piece seg r r' h h' hrest ih =>
    obtain ⟨kind, text⟩ := seg
    cases kind with
    | comment =>
      obtain ⟨l', hnext', hl'⟩ := ih ((next?_comment_iff h).1 hnext)
      exact ⟨l', (next?_comment_iff h').2 hnext', hl'⟩
    | quotation =>
      obtain ⟨quote, body, rfl⟩ := h.exists_text
      obtain ⟨hstop, hscan⟩ :=
        exists_scanToken_quotation h h' (scanToken_of_next? h.afterTrivia_quotation hnext)
      rw [hstop]
      exact ⟨_, next?_of_afterTrivia h'.afterTrivia_quotation hscan, rfl, hrest⟩
    | code =>
      obtain ⟨c, rfl⟩ := h.exists_code
      by_cases hblank : Text.isBlank c = true
      · obtain ⟨l', hnext', hl'⟩ := ih (Lexeme.next?_congr (Text.afterTrivia_blank hblank r) ▸ hnext)
        exact ⟨l', (Lexeme.next?_congr (Text.afterTrivia_blank hblank r')).trans hnext', hl'⟩
      · rw [Bool.not_eq_true] at hblank
        obtain ⟨stop, hscan, hstop⟩ := exists_scanToken_code hinter h h' hrest
          (scanToken_of_next? (h.afterTrivia_code hblank) hnext)
        exact ⟨_, next?_of_afterTrivia (h'.afterTrivia_code hblank) hscan, rfl, hstop⟩

/-- The same tokens are scanned from both texts. -/
theorem exists_scans {ls : List Lexeme} (hinter : Interchangeable t t') (h : SamePieces t t' r r')
    (hscans : Lexeme.Scans r ls stop) :
    ∃ ls' stop', Lexeme.Scans r' ls' stop' ∧ ls'.map Lexeme.token = ls.map Lexeme.token ∧
      SamePieces t t' stop stop' := by
  induction hscans generalizing r' with
  | nil r => exact ⟨[], r', .nil r', rfl, h⟩
  | cons hnext _ ih =>
    obtain ⟨l', hnext', htoken, hstop⟩ := h.exists_next? hinter hnext
    obtain ⟨ls', stop', hscans', htokens, hsame⟩ := ih hstop
    exact ⟨l' :: ls', stop', .cons hnext' hscans',
      by rw [List.map_cons, htoken, htokens, List.map_cons], hsame⟩

/-- **The same literal is read from both texts.** -/
theorem exists_readFront {front : Literal.Front} (hinter : Interchangeable t t') (h : SamePieces t t' r r')
    (hread : Literal.readFront r = .ok front) :
    ∃ front', Literal.readFront r' = .ok front' ∧ front'.value = front.value ∧
      SamePieces t t' front.stop front'.stop := by
  obtain ⟨ls, hscans, hderives, -⟩ := Literal.readFront_eq_ok_iff_scans.1 hread
  obtain ⟨ls', stop', hscans', htokens, hsame⟩ := h.exists_scans hinter hscans
  exact ⟨_, Literal.readFront_of_derives hscans' (htokens ▸ hderives), rfl, hsame⟩

end Script.SamePieces

/-! ### A comment and a blank -/

/-- **A comment and a blank are interchangeable.** -/
theorem interchangeable_blank {comment : List Char} (h : Piece ⟨.comment, comment⟩ r) :
    Interchangeable (comment ++ r) (' ' :: r) where
  ends := by
    obtain ⟨text, rfl⟩ := h.exists_comment
    rintro c ⟨⟩
    rfl
  ends' := by
    rintro c ⟨⟩
    rfl
  next?_iff := fun l => by
    rw [next?_comment_iff h, Lexeme.next?_congr (Text.afterTrivia_blank rfl r)]

end ScriptBundle
