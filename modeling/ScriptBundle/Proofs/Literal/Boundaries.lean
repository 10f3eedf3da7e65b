import ScriptBundle.Proofs.Literal.Lookahead
import ScriptBundle.Proofs.Text.Boundary

/-!
# Literals are read at character boundaries

The readers that keep their place as a number of bytes cut the text at character boundaries only.  So they are
never abandoned, and every place that they report is a boundary.

## Main definitions

* `Cursor.MovesOn`: where a cursor comes from a place, and what it reports.
* `Cursor.Visits`: the places to which a cursor comes that reads token after token.
* `Literal.CutsAtBoundaries`: what the readers with a cursor do on a text.

## Main results

* `Cursor.movesOn_of_isBoundary`: from a boundary a cursor moves to a boundary, and to a later one with a token.
* `Cursor.Visits.isBoundary`: so a cursor that reads token after token comes to boundaries only.
* `Literal.cuts_at_boundaries`: **on every text the readers with a cursor end without being abandoned, read what
  the readers of lexemes read, and report character boundaries.**
-/

namespace ScriptBundle

open Machine

variable {text : String}

/-! ### Token after token -/

namespace Cursor

/-- From `pos` a cursor moves to a boundary that is not before it, and to a later one if it reports a token.  What
it reports is at a boundary. -/
def MovesOn (text : String) (pos : Nat) : Prop :=
  ∃ found pos', (nextToken text.toList).runFrom pos = some (.ok (found, pos')) ∧ Text.IsBoundary text pos' ∧
    pos ≤ pos' ∧
    match found with
    | .error e => Text.IsBoundary text e.offset
    | .ok placed => Text.IsBoundary text placed.offset ∧ (placed.token = none ∨ pos < pos')

/-- The places to which a cursor comes that reads token after token, also behind a fault. -/
inductive Visits (text : String) : Nat → Prop where
  | start : Visits text 0
  | next {pos pos' : Nat} {found : Except LiteralError PlacedToken} (h : Visits text pos)
    (hread : (nextToken text.toList).runFrom pos = some (.ok (found, pos'))) : Visits text pos'

theorem movesOn_of_isBoundary {pos : Nat} (h : Text.IsBoundary text pos) : MovesOn text pos := by
  obtain ⟨cs, hcs, rfl⟩ := Text.isBoundary_iff.1 h
  have hread := reads_nextToken hcs
  cases hnext : Lexeme.next? cs with
  | error s =>
    rw [hnext] at hread
    -- the place of the fault and the place where the cursor stops may differ
    obtain ⟨hs, rest, hrest, hends⟩ := hread
    exact ⟨_, _, hends, Text.isBoundary_iff.2 ⟨rest, hrest.trans hcs, rfl⟩, Text.offsetOf_le hrest,
      Text.isBoundary_iff.2 ⟨s.rest, hs, rfl⟩⟩
  | ok o =>
    rw [hnext] at hread
    obtain ⟨hrest, hends⟩ := hread
    refine ⟨_, _, hends, Text.isBoundary_iff.2 ⟨_, hrest.trans hcs, rfl⟩, Text.offsetOf_le hrest, ?_⟩
    cases o with
    | none => exact ⟨Text.isBoundary_iff.2 ⟨[], List.nil_suffix, rfl⟩, .inl rfl⟩
    | some l =>
      -- a lexeme is not empty
      exact ⟨Text.isBoundary_iff.2 ⟨l.start, (Lexeme.start_suffix hnext).trans hcs, rfl⟩,
        .inr (Text.offsetOf_lt hcs hrest (Lexeme.next?_length hnext))⟩

/-- Every place to which a cursor comes is a boundary. -/
theorem Visits.isBoundary {pos : Nat} (h : Visits text pos) : Text.IsBoundary text pos := by
  induction h with
  | start => exact Text.isBoundary_iff.2 ⟨text.toList, List.suffix_refl _, (Nat.sub_self _).symm⟩
  | next _ hread ih =>
    obtain ⟨found, pos', hrun, hpos', -⟩ := movesOn_of_isBoundary ih
    obtain ⟨-, rfl⟩ := Prod.mk.inj (Except.ok.inj (Option.some.inj (hread.symm.trans hrun)))
    exact hpos'

end Cursor

/-! ### Whole literals -/

namespace Literal

variable {e : LiteralError}

theorem isBoundary_of_decode_error (h : decode text = .error e) : Text.IsBoundary text e.offset := by
  obtain ⟨current, position, -, hshows⟩ := Lookahead.exists_shows (List.suffix_refl text.toList)
  obtain ⟨-, -, hsuffix⟩ := Lookahead.ends_complete (hshows 0)
  unfold decode at h
  cases hread : readAll text.toList with
  | error s =>
    rw [hread] at h
    obtain rfl := Except.error.inj h
    exact Text.isBoundary_iff.2 ⟨s.rest, hsuffix s hread, rfl⟩
  | ok v =>
    rw [hread] at h
    cases h

theorem isBoundary_of_decodePrefix :
    (∀ e, decodePrefix text = .error e → Text.IsBoundary text e.offset) ∧
    ∀ v stop, decodePrefix text = .ok (v, stop) → Text.IsBoundary text stop := by
  obtain ⟨current, position, -, hshows⟩ := Lookahead.exists_shows (List.suffix_refl text.toList)
  obtain ⟨-, -, hfault, hstop⟩ := Lookahead.ends_front (hshows 0)
  unfold decodePrefix
  cases hread : readFront text.toList with
  | error s =>
    refine ⟨?_, nofun⟩
    rintro e ⟨⟩
    exact Text.isBoundary_iff.2 ⟨s.rest, hfault s hread, rfl⟩
  | ok front =>
    refine ⟨nofun, ?_⟩
    rintro v stop ⟨⟩
    exact Text.isBoundary_iff.2 ⟨front.stop, hstop front hread, rfl⟩

/-- The readers with a cursor cut a text at character boundaries only. -/
structure CutsAtBoundaries (text : String) : Prop where
  /-- A cursor that reads token after token comes to boundaries only, and from each of them it moves on. -/
  visits : ∀ pos, Cursor.Visits text pos → Text.IsBoundary text pos
  movesOn : ∀ pos, Text.IsBoundary text pos → Cursor.MovesOn text pos
  /-- The reader of whole texts ends, without being abandoned, as the reader of lexemes does, and the places
  of its errors are boundaries. -/
  decode_eq : Lookahead.decode text = some (.ok (decode text))
  decode_error : ∀ e, decode text = .error e → Text.IsBoundary text e.offset
  /-- So does the reader of literals at the front of a text, and these end at boundaries. -/
  decodePrefix_eq : Lookahead.decodePrefix text = some (.ok (decodePrefix text))
  decodePrefix_error : ∀ e, decodePrefix text = .error e → Text.IsBoundary text e.offset
  decodePrefix_stop : ∀ v stop, decodePrefix text = .ok (v, stop) → Text.IsBoundary text stop

/-- **The readers with a cursor cut every text at character boundaries only.** -/
theorem cuts_at_boundaries (text : String) : CutsAtBoundaries text where
  visits _ := Cursor.Visits.isBoundary
  movesOn _ := Cursor.movesOn_of_isBoundary
  decode_eq := Lookahead.decode_eq text
  decode_error _ := isBoundary_of_decode_error
  decodePrefix_eq := Lookahead.decodePrefix_eq text
  decodePrefix_error := isBoundary_of_decodePrefix.1
  decodePrefix_stop := isBoundary_of_decodePrefix.2

/-- A cursor behind a quote, and the ends of a literal and of its text, around characters of two bytes. -/
theorem accentedText_cuts :
    ¬ Text.IsBoundary "['é\\u00e9', 1] ü" 3 ∧ Text.IsBoundary "['é\\u00e9', 1] ü" 2 ∧
    Cursor.MovesOn "['é\\u00e9', 1] ü" 2 ∧
    (∃ v, Lookahead.decodePrefix "['é\\u00e9', 1] ü" = some (.ok (.ok (v, 15))) ∧
      Text.IsBoundary "['é\\u00e9', 1] ü" 15) ∧
    ∃ e, Lookahead.decode "['é\\u00e9', 1] ü" = some (.ok (.error e)) ∧ e.offset = 16 ∧
      Text.IsBoundary "['é\\u00e9', 1] ü" e.offset := by
  have hinside : ¬ Text.IsBoundary "['é\\u00e9', 1] ü" 3 := by decide +kernel
  have hboundary : Text.IsBoundary "['é\\u00e9', 1] ü" 2 := by decide +kernel
  have hfront : (decodePrefix "['é\\u00e9', 1] ü").toOption.map Prod.snd = some 15 := by decide +kernel
  have hwhole : (match decode "['é\\u00e9', 1] ü" with | .error e => some e.offset | .ok _ => none) = some 16 := by
    decide +kernel
  have hcuts := cuts_at_boundaries "['é\\u00e9', 1] ü"
  have hdecode := hcuts.decode_eq
  have hprefix := hcuts.decodePrefix_eq
  refine ⟨hinside, hboundary, hcuts.movesOn 2 hboundary, ?_, ?_⟩
  · obtain ⟨⟨v, stop⟩, hread, rfl⟩ := exists_of_toOption hfront
    rw [hread] at hprefix
    exact ⟨v, hprefix, hcuts.decodePrefix_stop v 15 hread⟩
  · cases hread : decode "['é\\u00e9', 1] ü" with
    | ok v => rw [hread] at hwhole; cases hwhole
    | error e =>
      rw [hread] at hwhole hdecode
      exact ⟨e, hdecode, Option.some.inj hwhole, hcuts.decode_error e hread⟩

end Literal

end ScriptBundle
