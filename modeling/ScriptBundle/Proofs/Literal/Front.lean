import ScriptBundle.Proofs.Literal.Derivation
import ScriptBundle.Proofs.Literal.Locality
import ScriptBundle.Proofs.Text.Boundary
import ScriptBundle.Script.Declaration

/-!
# The literal at the front of a text

A literal at the front of a text is read to its end and no further.  The text up to this end is a
literal of the same value, and if it is an object, an array or a quoted text, then anything may follow.

## Main results

* `readFront_eq_ok_iff_scans`: what is read at the front of a text is derived from the tokens there.
* `Derives.isClosed_last`: what starts with a mark or a quoted text ends with one.
* `decodePrefix_spec`: **the end of a literal is a place in the text, the literal can be cut off there, and
  behind a literal that is a whole text stands only trivia.**
-/

namespace ScriptBundle

namespace Literal

open Lexeme

variable {cs r : List Char} {v : Value} {ls : List Lexeme} {depth : Nat} {ts : List Token}

/-! ### What is read -/

/-- What starts with a mark or a quoted text ends with one. -/
theorem Derives.isClosed_last (h : Derives depth ts v) {first last : Token} (hfirst : ts.head? = some first)
    (hclosed : first.isClosed = true) (hlast : ts.getLast? = some last) : last.isClosed = true := by
  cases h with
  | text s => cases hlast; rfl
  | number n => cases hfirst; cases hclosed
  | isTrue => cases hfirst; cases hclosed
  | isFalse => cases hfirst; cases hclosed
  | null _ => cases hfirst; cases hclosed
  | word _ => cases hfirst; cases hclosed
  | array _ _ =>
    rw [← List.cons_append, List.getLast?_concat] at hlast
    cases hlast
    rfl
  | object _ _ _ _ =>
    rw [← List.cons_append, List.getLast?_concat] at hlast
    cases hlast
    rfl

/-- What is derived from the tokens at the front of a text is read there. -/
theorem readFront_of_derives (hscans : Scans cs ls r) (h : Derives maxDepth (ls.map Lexeme.token) v) :
    readFront cs = .ok ⟨v, r, (all r).1, (all r).2⟩ := by
  obtain ⟨stop, shorter, hvalue⟩ := h.readAs ls rfl (endingOf (all r).2) (all r).1
  -- the last lexeme that has been read is the last one of `ls`
  have hpassed : Consumed (Derives maxDepth) (ls ++ (all r).1) v stop (all r).1 :=
    derives_of_value _ _ hvalue
  obtain ⟨init, last, hls, hstop, _⟩ := hpassed
  have hinit : ls = init ++ [last] := by
    rw [← List.singleton_append, ← List.append_assoc] at hls
    exact List.append_cancel_right hls
  obtain rfl : stop = r := by
    rw [hinit] at hscans
    exact hstop.symm.trans hscans.stop_last
  exact readFront_eq_ok_iff.2 ⟨_, shorter, hscans.cuts, hvalue⟩

/-- **What is read at the front of a text is derived from the tokens there.**  Behind it the scanner goes
on. -/
theorem readFront_eq_ok_iff_scans {front : Front} :
    readFront cs = .ok front ↔ ∃ ls, Scans cs ls front.stop ∧
      Derives maxDepth (ls.map Lexeme.token) front.value ∧ all front.stop = (front.following, front.fault) := by
  constructor
  · intro h
    obtain ⟨ls, shorter, hall, hvalue⟩ := readFront_eq_ok_iff.1 h
    have hpassed : Consumed (Derives maxDepth) ls front.value front.stop front.following :=
      derives_of_value ls _ hvalue
    obtain ⟨init, last, rfl, hstop, hderives⟩ := hpassed
    obtain ⟨hscans, hrest⟩ := scans_of_all hall
    rw [hstop] at hscans hrest
    exact ⟨init ++ [last], hscans, hderives, hrest⟩
  · rintro ⟨ls, hscans, hderives, hrest⟩
    rw [readFront_of_derives hscans hderives, hrest]

/-- An object, an array or a quoted text starts with a token that ends by itself. -/
theorem isClosed_of_startsLiteral {l : Lexeme} (hnext : next? cs = .ok (some l))
    (h : Script.startsLiteral (Text.afterTrivia cs) = true) : l.token.isClosed = true := by
  obtain ⟨hafter, hscan⟩ := next?_eq_some_iff.1 hnext
  rw [hafter] at h
  rcases scanToken_cases hscan with ⟨m, ht, _⟩ | ⟨quote, cs, _, _, hquoted⟩ | ⟨c, cs, hstart, hcs, _⟩ |
    ⟨c, cs, hstart, hcs, _, _⟩
  · rw [ht]
    rfl
  · obtain ⟨body, _, ht⟩ := scanQuoted_eq_ok_iff.1 hquoted
    rw [ht]
    rfl
  · rw [hcs] at h
    simp only [Script.startsLiteral, Bool.or_eq_true, beq_iff_eq] at h
    rcases h with ((rfl | rfl) | rfl) | rfl <;> cases hstart
  · rw [hcs] at h
    simp only [Script.startsLiteral, Bool.or_eq_true, beq_iff_eq] at h
    rcases h with ((rfl | rfl) | rfl) | rfl <;> cases hstart

theorem decodePrefix_eq_ok_iff {text : String} {stop : Nat} :
    decodePrefix text = .ok (v, stop) ↔ ∃ front, readFront text.toList = .ok front ∧ front.value = v ∧
      Text.offsetOf text.toList front.stop = stop := by
  unfold decodePrefix
  cases readFront text.toList with
  | error e => simp
  | ok front => simp

/-- The text up to the end of a literal is read as the literal, also when something else follows that fits
its last token. -/
theorem exists_before {front : Front} (h : readFront cs = .ok front) :
    ∃ before, cs = before ++ front.stop ∧
      readFront before = .ok ⟨front.value, [], [], none⟩ ∧
      (Script.startsLiteral (Text.afterTrivia cs) = true → ∀ other,
        readFront (before ++ other) = .ok ⟨front.value, other, (all other).1, (all other).2⟩) := by
  obtain ⟨ls, hscans, hderives, _⟩ := readFront_eq_ok_iff_scans.1 h
  rcases List.eq_nil_or_concat ls with rfl | ⟨init, last, hls⟩
  · cases hderives
  rw [List.concat_eq_append] at hls
  obtain ⟨before, _, hcs, hlocal⟩ := Scans.exists_append (hls ▸ hscans)
  have hread : ∀ other, Fits last.token front.stop other →
      readFront (before ++ other) = .ok ⟨front.value, other, (all other).1, (all other).2⟩ := by
    intro other hfits
    obtain ⟨ls', hscans', htokens⟩ := hlocal other hfits
    rw [← hls] at htokens
    exact readFront_of_derives hscans' (htokens ▸ hderives)
  refine ⟨before, hcs, ?_, ?_⟩
  · have hend := hread [] (.inr (.inl rfl))
    rwa [List.append_nil, all_nil] at hend
  · intro hstart other
    refine hread other (.inl ?_)
    have hlast : (ls.map Lexeme.token).getLast? = some last.token := by
      rw [hls, List.map_append]
      exact List.getLast?_concat
    cases hscans with
    | nil => cases hderives
    | cons hnext _ => exact hderives.isClosed_last rfl (isClosed_of_startsLiteral hnext hstart) hlast

theorem toList_ofList_append {text : String} {before rest : List Char} (h : text.toList = before ++ rest) :
    text = String.ofList before ++ String.ofList rest := by
  rw [← String.ofList_append, ← h, String.ofList_toList]

/-- **The end of a literal is a place in the text, and the text up to there is a literal of this value.  If
it is an object, an array or a quoted text, then anything may follow.  Behind a literal that is the whole
text stands only trivia.** -/
theorem decodePrefix_spec (text : String) (v : Value) :
    (∀ stop, decodePrefix text = .ok (v, stop) →
      ∃ before rest, text = before ++ rest ∧ before.utf8ByteSize = stop ∧ decode before = .ok v ∧
        (Script.startsLiteral (Text.afterTrivia text.toList) = true →
          ∀ other, decodePrefix (before ++ other) = .ok (v, stop))) ∧
    (decode text = .ok v →
      ∃ before rest, text = before ++ rest ∧ decodePrefix text = .ok (v, before.utf8ByteSize) ∧
        Text.TriviaOnly rest.toList) := by
  constructor
  · intro stop h
    obtain ⟨front, hfront, rfl, hstop⟩ := decodePrefix_eq_ok_iff.1 h
    obtain ⟨before, hcs, hbefore, hother⟩ := exists_before hfront
    have hsize : Text.byteCount before = stop := by
      rw [← hstop, hcs, Text.offsetOf_append]
    refine ⟨String.ofList before, String.ofList front.stop, toList_ofList_append hcs, ?_, ?_, ?_⟩
    · rw [Text.utf8ByteSize_ofList, hsize]
    · refine decode_eq_ok_iff.2 ⟨[], ?_⟩
      rw [String.toList_ofList]
      exact hbefore
    · intro hstart other
      have hread := hother hstart other.toList
      have htext : (String.ofList before ++ other).toList = before ++ other.toList := by
        rw [String.toList_append, String.toList_ofList]
      rw [← htext] at hread
      refine decodePrefix_eq_ok_iff.2 ⟨_, hread, rfl, ?_⟩
      rw [htext, Text.offsetOf_append, hsize]
  · intro h
    obtain ⟨stop, hfront⟩ := decode_eq_ok_iff.1 h
    obtain ⟨before, hcs, _, _⟩ := exists_before hfront
    refine ⟨String.ofList before, String.ofList stop, toList_ofList_append hcs, ?_, ?_⟩
    · refine decodePrefix_eq_ok_iff.2 ⟨_, hfront, rfl, ?_⟩
      rw [hcs, Text.offsetOf_append, Text.utf8ByteSize_ofList]
    · rw [String.toList_ofList, ← Text.afterTrivia_eq_nil_iff]
      obtain ⟨_, _, _, hrest⟩ := readFront_eq_ok_iff_scans.1 hfront
      exact afterTrivia_of_all hrest

/-- An array between a comment and a character with which no token starts, and one between
comments. -/
theorem decodePrefix_between_comments :
    (∃ v, decodePrefix "/*a*/ [[1,], 'b'] `" = .ok (v, 17) ∧
      Script.startsLiteral (Text.afterTrivia "/*a*/ [[1,], 'b'] `".toList) = true ∧
      ∃ before rest, "/*a*/ [[1,], 'b'] `" = before ++ rest ∧ before.utf8ByteSize = 17 ∧
        decode before = .ok v ∧ ∀ other, decodePrefix (before ++ other) = .ok (v, 17)) ∧
    ∃ v, decode "/*a*/ [7] // b" = .ok v ∧
      ∃ before rest, "/*a*/ [7] // b" = before ++ rest ∧
        decodePrefix "/*a*/ [7] // b" = .ok (v, before.utf8ByteSize) ∧ Text.TriviaOnly rest.toList := by
  have hstart : Script.startsLiteral (Text.afterTrivia "/*a*/ [[1,], 'b'] `".toList) = true := by
    decide +kernel
  have hstop : ((decodePrefix "/*a*/ [[1,], 'b'] `").toOption.map Prod.snd) = some 17 := by
    decide +kernel
  have hwhole : (decode "/*a*/ [7] // b").toOption.isSome = true := by decide +kernel
  constructor
  · obtain ⟨⟨v, stop⟩, hread, rfl⟩ := exists_of_toOption hstop
    obtain ⟨before, rest, htext, hsize, hbefore, hother⟩ := (decodePrefix_spec _ v).1 17 hread
    exact ⟨v, hread, hstart, before, rest, htext, hsize, hbefore, hother hstart⟩
  · obtain ⟨v, hread⟩ := exists_of_isSome hwhole
    exact ⟨v, hread, (decodePrefix_spec _ v).2 hread⟩

end Literal

end ScriptBundle
