import ScriptBundle.Proofs.Literal.Cursor

/-!
# Tokens that a cursor reads

The cursor moves by numbers of bytes that are fixed: two for the opening of a comment and for the start of an
escape, four for the digits of an escape.  They are right because the characters behind which it moves take one
byte each, which is known only after they have been looked at.

## Main definitions

* `escapeFault`: the fault of an escape of which some characters are shown.
* `bodyOf`: what the content of a quoted text amounts to, with its fault in the text.
* `placed`: a lexeme as a token with the byte position at which it starts.

## Main results

* `byteCount_of_hexNumber?`: bytes that are hexadecimal digits are as many characters.
* `reads_unicodeEscape`, `progress_quotedPiece`: escapes are shown as far as they have been read.
* `reads_nextToken`: **the cursor reads the lexemes of a text.**
-/

namespace ScriptBundle

namespace Cursor

variable {α : Type} {text cs rest esc opening content : List Char} {c quote : Char}

/-! ### Escapes -/

theorem utf8Size_of_hexValue? {n : Nat} (h : hexValue? c = some n) : c.utf8Size = 1 := by
  have hle : c.val ≤ 127 := by
    unfold hexValue? at h
    split at h
    · next hdigit =>
      simp only [Char.isDigit, Bool.and_eq_true, decide_eq_true_eq] at hdigit
      exact UInt32.le_trans hdigit.2 (by decide)
    · split at h
      · next hlower => exact UInt32.le_trans hlower.2 (by decide)
      · split at h
        · next hupper => exact UInt32.le_trans hupper.2 (by decide)
        · cases h
  exact Char.utf8Size_eq_one_iff.2 hle

/-- Hexadecimal digits take one byte each. -/
theorem byteCount_of_hexNumber? {digits : List Char} {n : Nat} (h : hexNumber? digits = some n) :
    Text.byteCount digits = digits.length := by
  have hdigits := exists_hexValue?_of_mem h
  clear h
  induction digits with
  | nil => rfl
  | cons c digits ih =>
    obtain ⟨⟨value, hvalue⟩, hdigits⟩ := List.forall_mem_cons.1 hdigits
    rw [Text.byteCount_cons, utf8Size_of_hexValue? hvalue, ih hdigits, List.length_cons, Nat.add_comm]

theorem hexQuad?_rest {n : Nat} (h : hexQuad? cs = some (n, rest)) : rest = cs.drop 4 := by
  obtain ⟨digits, rfl, hlength, -⟩ := hexQuad?_eq_some_iff.1 h
  rw [List.drop_left' hlength]

/-- The fault of the escape that starts at `esc`, of which `n` characters are shown. -/
def escapeFault (esc : List Char) (n : Nat) : Stop := ⟨.invalidEscape (String.ofList (esc.take n)), esc⟩

theorem reads_refuseEscape (h : esc <:+ text) (n : Nat) :
    Reads text (refuseEscape text (Text.offsetOf text esc) : Cursor α) (esc.drop n) (.error (escapeFault esc n)) := by
  have hsince := reads_since (List.take_append_drop n esc) h
  exact hsince.bind (reads_throw h)

theorem reads_hexQuad {n : Nat} (h : cs <:+ text) (hquad : hexQuad? cs = some (n, rest)) (escapeAt : Nat) :
    Reads text (hexQuad text escapeAt) cs (.ok (n, rest)) := by
  obtain ⟨digits, rfl, hlength, hvalue⟩ := hexQuad?_eq_some_iff.1 hquad
  have htake := Text.takeBytes?_append digits rest
  have hmove := Text.offsetOf_add digits h
  rw [byteCount_of_hexNumber? hvalue, hlength] at htake hmove
  refine (reads_get _).bind ?_
  rw [Text.sliceBytes?_offsetOf_add h, htake, Option.bind_some, hvalue, hmove]
  exact (reads_set (List.suffix_append _ _)).bind (reads_pure _ _)

theorem reads_hexQuad_none (h : cs <:+ text) (hesc : esc <:+ text) (hquad : hexQuad? cs = none) :
    Reads text (hexQuad text (Text.offsetOf text esc)) cs (.error (escapeFault esc 6)) := by
  -- four bytes that are hexadecimal digits would be four characters
  have hnone : (Text.takeBytes? cs 4).bind hexNumber? = none := by
    rw [Option.eq_none_iff_forall_ne_some]
    intro n hn
    obtain ⟨digits, htake, hvalue⟩ := Option.bind_eq_some_iff.1 hn
    obtain ⟨rest, hcs, hsize⟩ := Text.takeBytes?_eq_some_iff.1 htake
    rw [byteCount_of_hexNumber? hvalue] at hsize
    rw [hexQuad?_eq_some_iff.2 ⟨digits, hcs, hsize, hvalue⟩] at hquad
    cases hquad
  refine (reads_get _).bind ?_
  rw [Text.sliceBytes?_offsetOf_add h, hnone, Text.dropBytes?_offsetOf hesc]
  exact (reads_pure _ _).bind (reads_throw hesc)

/-- Behind a high surrogate a second escape gives a low one, or both are shown. -/
theorem reads_pairCode {high low : Nat} (h : esc <:+ text) (hcs : esc.drop 6 = '\\' :: 'u' :: cs)
    (hlow : hexQuad? cs = some (low, rest)) :
    Reads text (pairCode text (Text.offsetOf text esc) high) ('\\' :: 'u' :: cs)
      (if isLowSurrogate low then .ok (0x10000 + (high - 0xD800) * 0x400 + (low - 0xDC00), rest)
      else .error (escapeFault esc 12)) := by
  have hescape : '\\' :: 'u' :: cs <:+ text := hcs ▸ (List.drop_suffix 6 esc).trans h
  have hmove := reads_modify ['\\', 'u'] hescape
  refine hmove.bind ((reads_hexQuad (hmove.suffix hescape) hlow _).bind ?_)
  by_cases hsurrogate : isLowSurrogate low = true
  · rw [if_pos hsurrogate, if_pos hsurrogate]
    exact reads_pure _ _
  · have hrest : esc.drop 12 = rest := by
      rw [hexQuad?_rest hlow, ← List.drop_drop (i := 6), hcs]
      rfl
    rw [if_neg hsurrogate, if_neg hsurrogate, ← hrest]
    exact reads_refuseEscape h 12

theorem reads_pairCode_none (h : esc <:+ text) (hcs : '\\' :: 'u' :: cs <:+ text) (hlow : hexQuad? cs = none)
    (high : Nat) :
    Reads text (pairCode text (Text.offsetOf text esc) high) ('\\' :: 'u' :: cs) (.error (escapeFault esc 6)) := by
  have hmove := reads_modify ['\\', 'u'] hcs
  exact hmove.bind (reads_hexQuad_none (hmove.suffix hcs) h hlow).bind_error

/-- An escape that is no surrogate pair gives the code point by itself. -/
theorem reads_escapeCode_single {code escapeAt : Nat} (h : cs <:+ text) (hquad : hexQuad? cs = some (code, rest))
    (hsingle : isHighSurrogate code = true → ∀ mid, rest ≠ '\\' :: 'u' :: mid) :
    Reads text (escapeCode text escapeAt) cs (.ok (code, rest)) := by
  have hread := reads_hexQuad h hquad escapeAt
  refine hread.bind ?_
  by_cases hhigh : isHighSurrogate code = true
  · have hother : ¬ ['\\', 'u'].isPrefixOf rest = true := by
      rw [List.isPrefixOf_iff_prefix]
      rintro ⟨mid, hmid⟩
      exact hsingle hhigh mid hmid.symm
    rw [if_pos hhigh]
    refine (reads_rest (hread.suffix h)).bind ?_
    rw [if_neg hother]
    exact reads_pure _ _
  · rw [if_neg hhigh]
    exact reads_pure _ _

theorem reads_escapeCode_pair {high escapeAt : Nat} {x : Except Stop (Nat × List Char)} {mid : List Char}
    (h : cs <:+ text) (hquad : hexQuad? cs = some (high, '\\' :: 'u' :: mid)) (hhigh : isHighSurrogate high = true)
    (hpair : Reads text (pairCode text escapeAt high) ('\\' :: 'u' :: mid) x) :
    Reads text (escapeCode text escapeAt) cs x := by
  have hread := reads_hexQuad h hquad escapeAt
  refine hread.bind ?_
  rw [if_pos hhigh]
  refine (reads_rest (hread.suffix h)).bind ?_
  rw [if_pos (by simp)]
  exact hpair

/-- The code point that an escape gives stands for a character, or the escape is shown. -/
theorem reads_unicodeEscape_of_code {code n : Nat} (h : esc <:+ text) (hrest : esc.drop n = rest)
    (hcode : Reads text (escapeCode text (Text.offsetOf text esc)) cs (.ok (code, rest))) :
    Reads text (unicodeEscape text (Text.offsetOf text esc)) cs
      (Except.mapError (escapeFault esc)
        (match charOf? code with
        | some c => .ok (c, rest)
        | none => .error n)) := by
  refine hcode.bind ?_
  cases charOf? code with
  | some c => exact reads_pure c rest
  | none => exact hrest ▸ reads_refuseEscape h n

theorem charOf?_of_isHighSurrogate {n : Nat} (h : isHighSurrogate n = true) : charOf? n = none := by
  simp only [isHighSurrogate, Bool.and_eq_true, decide_eq_true_eq] at h
  refine dif_neg ?_
  rintro (hn | ⟨hn, -⟩) <;> omega

/-- A unicode escape is read, or shown as far as it has been read. -/
theorem reads_unicodeEscape (h : '\\' :: 'u' :: cs <:+ text) :
    Reads text (unicodeEscape text (Text.offsetOf text ('\\' :: 'u' :: cs))) cs
      ((ScriptBundle.unicodeEscape cs).mapError (escapeFault ('\\' :: 'u' :: cs))) := by
  have hcs := (List.suffix_append ['\\', 'u'] cs).trans h
  unfold ScriptBundle.unicodeEscape
  cases hquad : hexQuad? cs with
  | none => exact (reads_hexQuad_none hcs h hquad).bind_error.bind_error
  | some r =>
    obtain ⟨high, rest⟩ := r
    have hrest : ('\\' :: 'u' :: cs).drop 6 = rest := (hexQuad?_rest hquad).symm
    dsimp only
    split
    · next hhigh =>
      split
      · next mid =>
        cases hlow : hexQuad? mid with
        | none =>
          have hpair := reads_pairCode_none h (hrest ▸ (List.drop_suffix 6 _).trans h) hlow high
          exact (reads_escapeCode_pair hcs hquad hhigh hpair).bind_error
        | some r =>
          -- the second escape has been read as well, and is shown with the first
          obtain ⟨low, rest⟩ := r
          have hrest' : ('\\' :: 'u' :: cs).drop 12 = rest := by
            rw [hexQuad?_rest hlow, ← List.drop_drop (i := 6), hrest]
            rfl
          have hcode := reads_escapeCode_pair hcs hquad hhigh (reads_pairCode h hrest hlow)
          dsimp only
          generalize 0x10000 + (high - 0xD800) * 0x400 + (low - 0xDC00) = code at hcode ⊢
          split
          · next hlow =>
            rw [if_pos hlow] at hcode
            exact reads_unicodeEscape_of_code h hrest' hcode
          · next hlow =>
            rw [if_neg hlow] at hcode
            exact hcode.bind_error
      · next hother =>
        have hsingle : isHighSurrogate high = true → ∀ mid, rest ≠ '\\' :: 'u' :: mid :=
          fun _ mid hmid => hother mid hmid
        -- half a pair goes on to be refused as a code point without a character
        have hread := reads_unicodeEscape_of_code h hrest (reads_escapeCode_single hcs hquad hsingle)
        rwa [charOf?_of_isHighSurrogate hhigh] at hread
    · next hhigh =>
      exact reads_unicodeEscape_of_code h hrest (reads_escapeCode_single hcs hquad fun hc => absurd hc hhigh)

/-! ### Quoted texts -/

/-- What a quoted text amounts to that starts at `opening` and of which `content` has been read. -/
def bodyOf (opening content : List Char) :
    Except StringFault (List Char × List Char) → Except Stop (List Char × List Char)
  | .ok (body, rest) => .ok (content ++ body, rest)
  | .error .unterminated => .error ⟨.unterminatedString, opening⟩
  | .error (.escape shown rest) => .error ⟨.invalidEscape (String.ofList shown), rest⟩

theorem bodyOf_map (more : List Char) (r : Except StringFault (List Char × List Char)) :
    bodyOf opening content (r.map fun r => (more ++ r.1, r.2)) = bodyOf opening (content ++ more) r := by
  rcases r with (_ | _) | ⟨body, rest⟩
  · rfl
  · rfl
  · simp [bodyOf, Except.map]

theorem bodyOf_map_cons (c : Char) (r : Except StringFault (List Char × List Char)) :
    bodyOf opening content (r.map fun r => (c :: r.1, r.2)) = bodyOf opening (content ++ [c]) r :=
  bodyOf_map [c] r

/-- Behind a backslash, the escape is known by its first character. -/
theorem reads_quotedPiece_escape {x : Except Stop (ForInStep (List Char) × List Char)} (hquote : '\\' ≠ quote)
    (h : '\\' :: c :: cs <:+ text)
    (hescape : Reads text
      (if c = 'u' then do
        return .yield (content ++ [← unicodeEscape text (Text.offsetOf text ('\\' :: c :: cs))])
      else return .yield (content ++ simpleEscape quote c)) cs x) :
    Reads text (quotedPiece text quote (Text.offsetOf text opening) content) ('\\' :: c :: cs) x := by
  have hposition : Text.offsetOf text (c :: cs) - 1 = Text.offsetOf text ('\\' :: c :: cs) := by
    have hmove := Text.offsetOf_cons h
    have hsize : '\\'.utf8Size = 1 := rfl
    omega
  refine (reads_advance h).bind ?_
  dsimp only
  rw [if_neg (by decide), if_neg hquote, if_pos rfl]
  refine (reads_get _).bind ?_
  rw [hposition]
  exact (reads_advance ((List.suffix_cons _ _).trans h)).bind hescape

/-- A character or an escape of a quoted text is read as the reader of characters reads it. -/
theorem progress_quotedPiece (hquote : quote = '"' ∨ quote = '\'') (hopening : opening <:+ text) (h : cs <:+ text)
    (content : List Char) :
    Progress text (fun content cs => bodyOf opening content (stringBody quote cs))
      (quotedPiece text quote (Text.offsetOf text opening) content) cs
      (bodyOf opening content (stringBody quote cs)) := by
  have hbackslash : '\\' ≠ quote := by rcases hquote with rfl | rfl <;> decide
  fun_cases stringBody quote cs with
  | case1 => exact .last (reads_advance_nil.bind (reads_throw hopening))
  | case2 cs n hescape =>
    have hread := reads_unicodeEscape h
    rw [hescape] at hread
    refine .last (reads_quotedPiece_escape hbackslash h ?_)
    rw [if_pos rfl]
    exact hread.bind_error
  | case3 cs c rest hescape =>
    have hread := reads_unicodeEscape h
    rw [hescape] at hread
    rw [bodyOf_map_cons]
    refine .next ?_ (reads_quotedPiece_escape hbackslash h ?_)
    · exact Nat.lt_succ_of_lt (Nat.lt_succ_of_lt (unicodeEscape_length hescape))
    · rw [if_pos rfl]
      exact hread.bind (reads_pure _ _)
  | case4 c cs hc =>
    rw [bodyOf_map]
    refine .next ?_ (reads_quotedPiece_escape hbackslash h ?_)
    · exact Nat.lt_succ_of_lt (Nat.lt_succ_self _)
    · rw [if_neg hc]
      exact reads_pure _ _
  | case5 c cs hu hescape hc =>
    refine .last ((reads_advance h).bind ?_)
    dsimp only
    by_cases hbreak : c = '\n' ∨ c = '\r'
    · rw [if_pos hbreak]
      exact reads_throw hopening
    · -- a backslash that ends the text
      obtain rfl : c = '\\' := by rcases hc with hc | hc | hc <;> simp_all
      obtain rfl : cs = [] := List.eq_nil_iff_forall_not_mem.2 fun d hd => by
        obtain ⟨e, rest, rfl⟩ := List.exists_cons_of_ne_nil (List.ne_nil_of_mem hd)
        exact hescape e rest rfl rfl
      rw [if_neg hbreak, if_neg hbackslash, if_pos rfl]
      exact (reads_get _).bind (reads_advance_nil.bind (reads_throw hopening))
  | case6 cs hu hescape hc =>
    refine .last ((reads_advance h).bind ?_)
    dsimp only
    rw [if_neg fun hbreak => hc (hbreak.imp_right .inl), if_pos rfl]
    simpa [bodyOf, Except.map] using reads_pure (ForInStep.done content) cs
  | case7 c cs hu hescape hc hother =>
    rw [bodyOf_map_cons]
    refine .next (Nat.lt_succ_self _) ((reads_advance h).bind ?_)
    dsimp only
    rw [if_neg (fun hbreak => hc (hbreak.imp_right .inl)), if_neg hother, if_neg (fun hb => hc (.inr (.inr hb)))]
    exact reads_pure _ _

theorem reads_quoted (hquote : quote = '"' ∨ quote = '\'') (h : quote :: cs <:+ text) :
    Reads text (quoted text quote) (quote :: cs) (scanQuoted quote cs) := by
  have hbody := reads_loop (fun content rest => bodyOf (quote :: cs) content (stringBody quote rest))
    (fun content _ hcs => progress_quotedPiece hquote h hcs content) ((List.suffix_cons quote cs).trans h) []
  refine (reads_get _).bind ((reads_advance h).bind ?_)
  unfold scanQuoted
  cases hcs : stringBody quote cs with
  | ok r =>
    rw [hcs] at hbody
    exact hbody.bind (reads_pure _ _)
  | error fault =>
    rw [hcs] at hbody
    cases fault with
    | unterminated => exact hbody.bind_error
    | escape shown rest => exact hbody.bind_error

/-! ### Numbers and words -/

theorem reads_skipSign (h : cs <:+ text) : Reads text (skipSign text) cs (.ok ((), (Numeral.scanSign cs).2)) := by
  unfold Numeral.scanSign
  split
  · exact (reads_skipIf h rfl).bind (reads_pure _ _)
  · exact (reads_skipIf h rfl).bind (reads_pure _ _)
  · next hminus hplus =>
    refine (reads_skipIf_false h ?_).bind (reads_pure _ _)
    intro c hc
    obtain ⟨rest, rfl⟩ := List.head?_eq_some_iff.1 hc
    have hm : c ≠ '-' := fun hc => hminus rest (hc ▸ rfl)
    have hp : c ≠ '+' := fun hc => hplus rest (hc ▸ rfl)
    simp [hm, hp]

theorem reads_skipFraction (h : cs <:+ text) :
    Reads text (skipFraction text) cs (.ok ((), (Numeral.scanFraction cs).2)) := by
  unfold Numeral.scanFraction
  split
  · next cs =>
    refine (reads_skipIf h rfl).bind ?_
    exact reads_skipWhile ((List.suffix_cons _ cs).trans h)
  · next hpoint =>
    refine (reads_skipIf_false h ?_).bind (reads_pure _ _)
    intro c hc
    obtain ⟨rest, rfl⟩ := List.head?_eq_some_iff.1 hc
    simpa using fun hc : c = '.' => hpoint rest (hc ▸ rfl)

theorem reads_skipExponent (h : cs <:+ text) :
    Reads text (skipExponent text) cs (.ok ((), (Numeral.scanExponent cs).2)) := by
  unfold Numeral.scanExponent
  split
  · next c cs =>
    have hcs := (List.suffix_cons c cs).trans h
    split
    · next hmark =>
      have hsign := reads_skipSign hcs
      refine (reads_skipIf h (by simpa using hmark)).bind ?_
      exact hsign.bind (reads_skipWhile (hsign.1.trans hcs))
    · next hmark =>
      refine (reads_skipIf_false h ?_).bind (reads_pure _ _)
      simpa using hmark
  · exact (reads_skipIf_false h (by simp)).bind (reads_pure _ _)

/-- The text of a numeral is scanned as that numeral. -/
theorem scan_text (cs : List Char) :
    Numeral.scan (Numeral.scan cs).1.text = ((Numeral.scan cs).1, []) := by
  obtain ⟨s, hs, hlocal⟩ := Numeral.local_scan cs
  have heq : s = (Numeral.scan cs).1.text :=
    List.append_cancel_right (hs.symm.trans (Numeral.scan_append cs).symm)
  have hread := hlocal [] (.inl rfl)
  rwa [List.append_nil, heq] at hread

theorem reads_numeral (h : cs <:+ text) : Reads text (numeral text) cs (scanNumeral cs) := by
  have hsign := reads_skipSign h
  have hwhole := reads_skipWhile (p := Char.isDigit) (hsign.suffix h)
  have hfraction := reads_skipFraction (hwhole.suffix (hsign.suffix h))
  have hexponent := reads_skipExponent (hfraction.suffix (hwhole.suffix (hsign.suffix h)))
  have htail := reads_skipWhile (p := isWordRest)
    (hexponent.suffix (hfraction.suffix (hwhole.suffix (hsign.suffix h))))
  refine (reads_get cs).bind (hsign.bind (hwhole.bind (hfraction.bind (hexponent.bind (htail.bind ?_)))))
  have hsince := reads_since (Numeral.scan_append cs) h
  refine hsince.bind ?_
  rw [scan_text]
  unfold scanNumeral
  cases (Numeral.scan cs).1.value? with
  | some n => exact reads_pure _ _
  | none => exact reads_throw h

theorem reads_word (h : cs <:+ text) :
    Reads text (word text) cs (.ok (.word (String.ofList (cs.takeWhile isWordRest)), cs.dropWhile isWordRest)) := by
  have hwhole : cs.takeWhile isWordRest ++ cs.dropWhile isWordRest = cs := List.takeWhile_append_dropWhile
  have hsince := reads_since hwhole h
  exact (reads_get cs).bind ((reads_skipWhile h).bind (hsince.bind (reads_pure _ _)))

/-! ### Tokens -/

theorem isWordRest_of_isWordStart (h : isWordStart c = true) : isWordRest c = true := by
  simp only [isWordStart, isWordRest, Char.isAlphanum, Bool.or_eq_true] at h ⊢
  rcases h with (h | h) | h
  · exact .inl (.inl (.inl h))
  · exact .inl (.inr h)
  · exact .inr h

theorem reads_tokenFrom (h : c :: cs <:+ text) (hblock : ∀ rest, c = '/' → cs ≠ '*' :: rest) :
    Reads text (tokenFrom text c) (c :: cs) (scanToken (c :: cs)) := by
  rw [scanToken, tokenFrom]
  · cases Mark.ofChar? c with
    | some m => exact (reads_advance h).bind (reads_pure _ _)
    | none =>
      dsimp only
      split
      · next hquote => exact reads_quoted hquote h
      · split
        · exact reads_numeral h
        · split
          · next hstart =>
            have hword := reads_word h
            have hrest := isWordRest_of_isWordStart hstart
            rwa [List.takeWhile_cons_of_pos hrest, List.dropWhile_cons_of_pos hrest] at hword
          · exact (reads_get _).bind (reads_throw h)
  · exact fun rest hc hcs => hblock rest hc hcs

/-- The token that a lexeme is, or the end of the text, and what follows it. -/
def placed (text : List Char) : Option Lexeme → PlacedToken × List Char
  | none => (⟨none, Text.offsetOf text []⟩, [])
  | some l => (⟨some l.token, Text.offsetOf text l.start⟩, l.stop)

/-- **The cursor reads the lexemes of a text.** -/
theorem reads_nextToken (h : cs <:+ text) :
    Reads text (nextToken text) cs ((Lexeme.next? cs).map (placed text)) := by
  have htrivia := reads_skipTrivia h
  unfold pastTrivia at htrivia
  unfold Lexeme.next?
  generalize Text.afterTrivia cs = behind at htrivia
  split at htrivia
  · exact htrivia.bind_error
  · next hblock =>
    have hbehind := htrivia.suffix h
    refine htrivia.bind ((reads_get _).bind ((reads_peekAt hbehind 0).bind ?_))
    cases behind with
    | nil => exact reads_pure _ _
    | cons c rest =>
      have htoken := reads_tokenFrom hbehind fun rest' hc hcs => hblock rest' (by rw [hc, hcs])
      dsimp only
      cases hscan : scanToken (c :: rest) with
      | ok r =>
        obtain ⟨token, rest'⟩ := r
        rw [hscan] at htoken
        exact htoken.bind (reads_pure _ _)
      | error s =>
        rw [hscan] at htoken
        exact htoken.bind_error

end Cursor
end ScriptBundle
