import ScriptBundle.Proofs.Literal.Spacing

/-!
# Trivia between tokens

Wherever a token starts or ends, more blanks and comments may be put in.  In front of a token they stand
with the trivia that is there already.  Behind a token they start with a character that belongs to no word
and no number, so that the token ends where it did.  All other tokens are scanned as before.

## Main definitions

* `Lexeme.IsEdge`: where a text or one of its tokens starts or ends.
* `MayFollow`: what may stand behind a token in the place of something else.
* `Lexeme.TakesPadding`: trivia in front of a place changes no token of a text.

## Main results

* `mayFollow_padding`: more trivia may stand behind a token.
* `scanToken_of_mayFollow`: a token is scanned from the same characters whatever may follow it.
* `IsEdge.takesPadding`: trivia at an edge changes no token.
* `Literal.decode_padded`: **trivia at an edge leaves the value of a literal as it is.**
-/

namespace ScriptBundle

variable {cs r r' place padding : List Char} {t : Token}

/-! ### The start of trivia -/

/-- No blank belongs to a word or a number. -/
theorem isPlain_eq_false {c : Char} (h : Text.isBlank c = true) : isPlain c = false := by
  refine Bool.eq_false_iff.2 fun hplain => ?_
  have hrange : (9 ≤ c.toNat ∧ c.toNat ≤ 32) ∨ 0x85 ≤ c.toNat := by
    simp only [Text.isBlank, Bool.or_eq_true, Bool.and_eq_true, decide_eq_true_eq, beq_iff_eq] at h
    omega
  have hbounds : 'A'.val.toNat = 65 ∧ 'Z'.val.toNat = 90 ∧ 'a'.val.toNat = 97 ∧ 'z'.val.toNat = 122 ∧
      '0'.val.toNat = 48 ∧ '9'.val.toNat = 57 := by decide
  simp only [isPlain, isWordRest, Bool.or_eq_true, beq_iff_eq] at hplain
  rcases hplain with ((hletter | rfl) | rfl) | hnumeral
  · delta Char.isAlphanum Char.isAlpha Char.isUpper Char.isLower Char.isDigit at hletter
    simp only [Bool.or_eq_true, Bool.and_eq_true, decide_eq_true_eq, ge_iff_le,
      UInt32.le_iff_toNat_le] at hletter
    simp only [Char.toNat] at hrange
    omega
  · cases h
  · cases h
  · cases (Literal.isBlank_eq_false hnumeral).symm.trans h

namespace Text.Trivia

/-- A word and a number end in front of trivia. -/
theorem endsPlain (h : Trivia padding) (hne : padding ≠ []) (rest : List Char) :
    EndsPlain (padding ++ rest) := by
  cases h with
  | nil => exact absurd rfl hne
  | blank hc _ =>
    rintro d ⟨⟩
    exact isPlain_eq_false hc
  | line _ _ =>
    rintro d ⟨⟩
    rfl
  | block _ _ =>
    rintro d ⟨⟩
    rfl

theorem append (h : Trivia cs) (hpadding : Trivia padding) : Trivia (cs ++ padding) := by
  induction h with
  | nil => exact hpadding
  | blank hc _ ih => exact .blank hc ih
  | line hbody _ ih =>
    rw [List.cons_append, List.cons_append, List.append_assoc, List.cons_append]
    exact .line hbody ih
  | block hbody _ ih =>
    rw [List.cons_append, List.cons_append, List.append_assoc, List.cons_append, List.cons_append]
    exact .block hbody ih

end Text.Trivia

/-! ### What may follow a token -/

/-- What may stand behind a token in the place of `r`: something that starts alike, or with which no word
and no number goes on. -/
def MayFollow (r r' : List Char) : Prop := Similar r r' ∨ EndsPlain r'

/-- More trivia may stand behind a token. -/
theorem mayFollow_padding (hpadding : Text.Trivia padding) (before place : List Char) :
    MayFollow (before ++ place) (before ++ padding ++ place) := by
  cases before with
  | cons c before => exact .inl (.inr rfl)
  | nil =>
    by_cases hne : padding = []
    · rw [hne]
      exact .inl (.inr rfl)
    · exact .inr (hpadding.endsPlain hne place)

/-- A token is scanned from the same characters whatever may follow it. -/
theorem scanToken_of_mayFollow {s : List Char} (h : scanToken (s ++ r) = .ok (t, r)) (hr' : MayFollow r r') :
    scanToken (s ++ r') = .ok (t, r') := by
  obtain ⟨c, s', hs, -, hlocal⟩ := exists_scanToken h
  obtain rfl : s = c :: s' := List.append_cancel_right hs
  rcases scanToken_cases h with ⟨m, rfl, -⟩ | ⟨quote, cs, -, -, hquoted⟩ | ⟨d, cs, hstart, hcs, hnumeral⟩ |
    ⟨d, cs, hstart, hcs, rfl, hrest⟩
  · exact hlocal r' (.inl rfl)
  · obtain ⟨body, -, rfl⟩ := scanQuoted_eq_ok_iff.1 hquoted
    exact hlocal r' (.inl rfl)
  · obtain ⟨n, hn, rfl, hrest⟩ := scanNumeral_eq_ok_iff.1 hnumeral
    obtain ⟨rfl, -⟩ := List.cons.inj hcs
    have hscan := Numeral.local_scan.of_ends Numeral.takesPlain_scan (Prod.ext rfl hrest) hr'
    rw [List.cons_append, scanToken_numeral hstart, ← List.cons_append]
    exact scanNumeral_eq_ok_iff.2 ⟨n, by rw [hscan, hn], rfl, by rw [hscan]⟩
  · obtain ⟨rfl, rfl⟩ := List.cons.inj hcs
    have hspan := (local_span isWordRest).of_ends takesPlain_word (s := s') (r := r)
      (Prod.ext rfl hrest.symm) hr'
    obtain ⟨htake, hdrop⟩ := Prod.mk.inj hspan
    rw [List.cons_append, scanToken_wordStart hstart, htake, hdrop]
    rfl

/-! ### Edges -/

namespace Lexeme

variable {l : Lexeme}

/-- Where a text or one of its tokens starts or ends. -/
inductive IsEdge (cs : List Char) : List Char → Prop where
  | front : IsEdge cs cs
  | start {l : Lexeme} (hl : l ∈ (all cs).1) : IsEdge cs l.start
  | stop {l : Lexeme} (hl : l ∈ (all cs).1) : IsEdge cs l.stop

/-- An edge is the start of the text or of its first token, or an edge of what stands behind this token. -/
theorem isEdge_cases (h : IsEdge cs place) :
    place = cs ∨ ∃ l, next? cs = .ok (some l) ∧ (place = l.start ∨ IsEdge l.stop place) := by
  have hfirst {l : Lexeme} (hl : l ∈ (all cs).1) :
      ∃ l', next? cs = .ok (some l') ∧ (l = l' ∨ l ∈ (all l'.stop).1) := by
    cases hnext : next? cs with
    | error s => simp [all_of_error hnext] at hl
    | ok o =>
      cases o with
      | none => simp [all_of_none hnext] at hl
      | some l' =>
        rw [all_of_next? hnext] at hl
        exact ⟨l', rfl, List.mem_cons.1 hl⟩
  cases h with
  | front => exact .inl rfl
  | start hl =>
    obtain ⟨l', hnext, rfl | hl⟩ := hfirst hl
    · exact .inr ⟨_, hnext, .inl rfl⟩
    · exact .inr ⟨l', hnext, .inr (.start hl)⟩
  | stop hl =>
    obtain ⟨l', hnext, rfl | hl⟩ := hfirst hl
    · exact .inr ⟨_, hnext, .inr .front⟩
    · exact .inr ⟨l', hnext, .inr (.stop hl)⟩

/-! ### Trivia at an edge -/

/-- Texts from which the same tokens are scanned, with the same fault behind them. -/
def SameTokens (cs cs' : List Char) : Prop :=
  (all cs).1.map token = (all cs').1.map token ∧ (all cs).2 = (all cs').2

/-- Trivia in front of a place changes no token of a text. -/
def TakesPadding (padding cs place : List Char) : Prop :=
  ∃ before, cs = before ++ place ∧ SameTokens (before ++ padding ++ place) cs

theorem sameTokens_of_next? {cs' : List Char} (h : next? cs = next? cs') : SameTokens cs cs' := by
  unfold SameTokens
  cases hnext : next? cs' with
  | error s => simp [all_of_error hnext, all_of_error (h.trans hnext)]
  | ok o =>
    cases o with
    | none => simp [all_of_none hnext, all_of_none (h.trans hnext)]
    | some l => simp [all_of_next? hnext, all_of_next? (h.trans hnext)]

theorem takesPadding_front (hpadding : Text.Trivia padding) : TakesPadding padding cs cs :=
  ⟨[], rfl, sameTokens_of_next? (next?_congr (hpadding.afterTrivia_append cs))⟩

theorem takesPadding_start (hpadding : Text.Trivia padding) (h : next? cs = .ok (some l)) :
    TakesPadding padding cs l.start := by
  obtain ⟨trivia, c, s, htrivia, hcs, -⟩ := exists_front h
  refine ⟨trivia, hcs, sameTokens_of_next? (next?_congr ?_)⟩
  rw [(htrivia.append hpadding).afterTrivia_append, hcs, htrivia.afterTrivia_append]

/-- The first token ends where it did if trivia is put in somewhere behind it. -/
theorem TakesPadding.of_stop (hpadding : Text.Trivia padding) (hnext : next? cs = .ok (some l))
    (h : TakesPadding padding l.stop place) : TakesPadding padding cs place := by
  obtain ⟨before, hstop, htokens, hfault⟩ := h
  obtain ⟨trivia, c, s, htrivia, hcs, hstart, hblank, hslash⟩ := exists_front hnext
  have hscan := (next?_eq_some_iff.1 hnext).2
  rw [hstart] at hscan hcs
  have hscan' : scanToken (c :: (s ++ (before ++ padding ++ place)))
      = .ok (l.token, before ++ padding ++ place) :=
    scanToken_of_mayFollow (s := c :: s) hscan (hstop ▸ mayFollow_padding hpadding before place)
  have hnext' := next?_trivia_append htrivia hblank hslash hscan'
  refine ⟨trivia ++ c :: s ++ before, ?_, ?_⟩
  · rw [hcs, hstop]
    simp
  · have htext : trivia ++ c :: s ++ before ++ padding ++ place
        = trivia ++ c :: (s ++ (before ++ padding ++ place)) := by simp
    rw [SameTokens, htext, all_of_next? hnext', all_of_next? hnext, List.map_cons, List.map_cons, htokens,
      hfault]
    exact ⟨rfl, rfl⟩

/-- Trivia at an edge changes no token. -/
theorem IsEdge.takesPadding (hpadding : Text.Trivia padding) (h : IsEdge cs place) :
    TakesPadding padding cs place := by
  -- an edge behind the first token is an edge of the rest of the text
  induction hlength : cs.length using Nat.strongRecOn generalizing cs with
  | ind n ih =>
    obtain rfl | ⟨l, hnext, rfl | hrest⟩ := isEdge_cases h
    · exact takesPadding_front hpadding
    · exact takesPadding_start hpadding hnext
    · exact (ih _ (hlength ▸ next?_length hnext) hrest rfl).of_stop hpadding hnext

end Lexeme

/-! ### Literals -/

namespace Literal

open Lexeme

variable {v : Value} {text text' before after padding : String}

/-- Texts with the same tokens are literals of one value. -/
theorem decode_of_sameTokens (h : decode text = .ok v) (hsame : SameTokens text'.toList text.toList) :
    decode text' = .ok v := by
  obtain ⟨stop, hfront⟩ := decode_eq_ok_iff.1 h
  obtain ⟨ls, hscans, hderives, hend⟩ := readFront_eq_ok_iff_scans.1 hfront
  obtain ⟨htokens, hfault⟩ := hsame
  have hall := hscans.cuts
  rw [Cuts, hend, List.append_nil] at hall
  rw [hall] at htokens hfault
  -- a literal has a last token
  obtain ⟨init, last, hls⟩ := (all text'.toList).1.eq_nil_or_concat.resolve_left fun hnil => by
    rw [hnil] at htokens
    rw [← htokens] at hderives
    cases hderives
  rw [List.concat_eq_append] at hls
  obtain ⟨hscans', hend'⟩ := scans_of_all (Prod.ext hls hfault)
  rw [← htokens, hls] at hderives
  have hread := readFront_of_derives hscans' hderives
  rw [hend'] at hread
  exact decode_eq_ok_iff.2 ⟨_, hread⟩

/-- **Wherever a literal or one of its tokens starts or ends, blanks and comments may be put in, and its
value stays as it is.** -/
theorem decode_padded (h : decode (before ++ after) = .ok v)
    (hedge : IsEdge (before ++ after).toList after.toList) (hpadding : Text.Trivia padding.toList) :
    decode (before ++ padding ++ after) = .ok v := by
  obtain ⟨front, hfront, hsame⟩ := hedge.takesPadding hpadding
  rw [String.toList_append] at hfront
  obtain rfl := List.append_cancel_right hfront
  refine decode_of_sameTokens h ?_
  rwa [String.toList_append, String.toList_append]

/-- A number, a comment that is already there behind it, and a comment with quotes, brackets and an opening
mark of a comment that is put in between. -/
theorem decode_padded_crowded :
    ∃ v, decode ("[.5e1" ++ "//]\n,a/**/]") = .ok v ∧
      IsEdge ("[.5e1" ++ "//]\n,a/**/]").toList "//]\n,a/**/]".toList ∧
      Text.Trivia "/*'[\"/**///*]'\n\t".toList ∧
      decode ("[.5e1" ++ "/*'[\"/**///*]'\n\t" ++ "//]\n,a/**/]") = .ok v := by
  have hwhole : (decode ("[.5e1" ++ "//]\n,a/**/]")).toOption.isSome = true := by decide +kernel
  have hedge : ∃ l ∈ (all ("[.5e1" ++ "//]\n,a/**/]").toList).1, l.stop = "//]\n,a/**/]".toList := by
    decide +kernel
  have hline : Text.Trivia "//*]'\n\t".toList := @Text.Trivia.line "*]'".toList _ (by decide) (.blank rfl .nil)
  have hpadding : Text.Trivia "/*'[\"/**///*]'\n\t".toList :=
    @Text.Trivia.block "'[\"/*".toList _ (by decide) hline
  obtain ⟨l, hl, hstop⟩ := hedge
  have hplace : IsEdge ("[.5e1" ++ "//]\n,a/**/]").toList "//]\n,a/**/]".toList := hstop ▸ .stop hl
  obtain ⟨v, hread⟩ := exists_of_isSome hwhole
  exact ⟨v, hread, hplace, hpadding, decode_padded hread hplace hpadding⟩

end Literal

end ScriptBundle
