import ScriptBundle.Proofs.Text.Trimmed
import ScriptBundle.Proofs.Text.Trivia
import ScriptBundle.Script.Segment

/-!
# The pieces of a script one by one

A piece is cut off with what stands behind it in view: a quotation and a comment go on up to their end, and
a slash is a piece of its own unless a comment starts with it.  Of what stands behind a piece only the first
character is looked at.

## Main definitions

* `Piece`: a text is cut off as a piece if some other text stands behind it.
* `SamePieces`: two texts have the same pieces up to a place where they go on differently.

## Main results

* `Piece.segments_append`, `exists_piece`: the first piece of a script, and the pieces behind it.
* `Piece.congr`: what stands behind a piece may be exchanged.
* `exists_samePieces`: if a comment sign is exchanged for a blank, the pieces in front of it stay the same.
* `Piece.afterTrivia_comment`: a comment is skipped as trivia, if it is closed.
-/

namespace ScriptBundle.Script

variable {quote : Char} {cs body r r' t t' text : List Char} {seg : Segment} {segs : List Segment}

/-- The text that is made of some pieces. -/
def textOf (segs : List Segment) : List Char := segs.flatMap Segment.text

@[simp] theorem textOf_append (segs segs' : List Segment) :
    textOf (segs ++ segs') = textOf segs ++ textOf segs' :=
  List.flatMap_append

@[simp] theorem textOf_cons (seg : Segment) (segs : List Segment) :
    textOf (seg :: segs) = seg.text ++ textOf segs :=
  List.flatMap_cons

theorem textOf_segments (cs : List Char) : textOf (segments cs) = cs := flatMap_segments cs

/-- A text is cut off as a piece of a script if `rest` stands behind it. -/
inductive Piece : Segment → (rest : List Char) → Prop where
  | code {c : Char} {rest : List Char} (hquote : ¬ (c = '"' ∨ c = '\'' ∨ c = '\x60'))
    (hslash : c = '/' → ∀ d ∈ rest.head?, d ≠ '/' ∧ d ≠ '*') : Piece ⟨.code, [c]⟩ rest
  | quotation {quote : Char} {body rest : List Char} (hquote : quote = '"' ∨ quote = '\'' ∨ quote = '\x60')
    (h : cutQuotation quote (body ++ rest) = (body, rest)) : Piece ⟨.quotation, quote :: body⟩ rest
  | line {body rest : List Char} (h : cutLine (body ++ rest) = (body, rest)) :
    Piece ⟨.comment, '/' :: '/' :: body⟩ rest
  | block {body rest : List Char} (h : cutBlock (body ++ rest) = (body, rest)) :
    Piece ⟨.comment, '/' :: '*' :: body⟩ rest

theorem Piece.exists_text (h : Piece seg r) : ∃ c text, seg.text = c :: text := by
  cases h <;> exact ⟨_, _, rfl⟩

theorem Piece.exists_code (h : Piece ⟨.code, text⟩ r) : ∃ c, text = [c] := by
  cases h with
  | code => exact ⟨_, rfl⟩

theorem Piece.exists_comment (h : Piece ⟨.comment, text⟩ r) : ∃ cs, text = '/' :: cs := by
  cases h <;> exact ⟨_, rfl⟩

/-! ### The first piece of a script -/

theorem ne_slash (h : quote = '"' ∨ quote = '\'' ∨ quote = '\x60') : quote ≠ '/' := by
  rcases h with rfl | rfl | rfl <;> decide

theorem segments_quotation (h : quote = '"' ∨ quote = '\'' ∨ quote = '\x60') (cs : List Char) :
    segments (quote :: cs)
      = ⟨.quotation, quote :: (cutQuotation quote cs).1⟩ :: segments (cutQuotation quote cs).2 := by
  rw [segments, if_pos h]
  · exact fun _ hc => absurd hc (ne_slash h)
  · exact fun _ hc => absurd hc (ne_slash h)

theorem segments_code {c : Char} (hquote : ¬ (c = '"' ∨ c = '\'' ∨ c = '\x60'))
    (hslash : c = '/' → ∀ d ∈ cs.head?, d ≠ '/' ∧ d ≠ '*') :
    segments (c :: cs) = ⟨.code, [c]⟩ :: segments cs := by
  rw [segments, if_neg hquote]
  · rintro cs' hc rfl
    exact (hslash hc '/' rfl).1 rfl
  · rintro cs' hc rfl
    exact (hslash hc '*' rfl).2 rfl

/-- A piece is the first one of the text that starts with it. -/
theorem Piece.segments_append (h : Piece seg r) : segments (seg.text ++ r) = seg :: segments r := by
  cases h with
  | code hquote hslash => exact segments_code hquote hslash
  | quotation hquote h =>
    show segments (_ :: (_ ++ r)) = _
    rw [segments_quotation hquote, h]
  | line h =>
    show segments ('/' :: '/' :: (_ ++ r)) = _
    rw [segments, h]
  | block h =>
    show segments ('/' :: '*' :: (_ ++ r)) = _
    rw [segments, h]

/-- The first piece of a script. -/
theorem exists_piece (h : segments cs = seg :: segs) :
    ∃ rest, cs = seg.text ++ rest ∧ Piece seg rest ∧ segments rest = segs := by
  fun_cases segments cs with
  | case1 =>
    rw [segments] at h
    cases h
  | case2 cs =>
    rw [segments] at h
    obtain ⟨rfl, rfl⟩ := List.cons.inj h
    have hcut := cutLine_append cs
    exact ⟨_, by simp [hcut], .line (by rw [hcut]), rfl⟩
  | case3 cs =>
    rw [segments] at h
    obtain ⟨rfl, rfl⟩ := List.cons.inj h
    have hcut := cutBlock_append cs
    exact ⟨_, by simp [hcut], .block (by rw [hcut]), rfl⟩
  | case4 c cs _ _ hquote =>
    rw [segments_quotation hquote] at h
    obtain ⟨rfl, rfl⟩ := List.cons.inj h
    have hcut := cutQuotation_append c cs
    exact ⟨_, by simp [hcut], .quotation hquote (by rw [hcut]), rfl⟩
  | case5 c cs hline hblock hquote =>
    have hslash : c = '/' → ∀ d ∈ cs.head?, d ≠ '/' ∧ d ≠ '*' := by
      rintro rfl d hd
      obtain ⟨cs, rfl⟩ := List.head?_eq_some_iff.1 hd
      exact ⟨fun heq => hline cs rfl (by rw [heq]), fun heq => hblock cs rfl (by rw [heq])⟩
    rw [segments_code hquote hslash] at h
    obtain ⟨rfl, rfl⟩ := List.cons.inj h
    exact ⟨cs, rfl, .code hquote hslash, rfl⟩

theorem eq_of_segments_eq (h : segments r = segments r') : r = r' := by
  rw [← textOf_segments r, h, textOf_segments]

/-- A piece in the middle of a script, and what stands behind it. -/
theorem piece_of_segments {front back : List Segment} (h : segments cs = front ++ seg :: back) :
    Piece seg (textOf back) ∧ segments (textOf back) = back := by
  induction front generalizing cs with
  | nil =>
    obtain ⟨rest, -, hpiece, rfl⟩ := exists_piece h
    rw [textOf_segments]
    exact ⟨hpiece, rfl⟩
  | cons first front ih =>
    obtain ⟨rest, -, -, hrest⟩ := exists_piece h
    exact ih hrest

/-! ### What stands behind a piece -/

theorem eq_nil_of_ne_cons (h : ∀ c rest, cs ≠ c :: rest) : cs = [] := by
  cases cs with
  | nil => rfl
  | cons c rest => exact absurd rfl (h c rest)

theorem cutQuotation_quote (h : quote = '\\' → cs = []) :
    cutQuotation quote (quote :: cs) = ([quote], cs) := by
  rw [cutQuotation, if_pos rfl]
  rintro c cs' hquote rfl
  cases h hquote

theorem cutQuotation_break (hquote : quote ≠ '\n') (hback : quote ≠ '\x60') (cs : List Char) :
    cutQuotation quote ('\n' :: cs) = ([], '\n' :: cs) := by
  rw [cutQuotation, if_neg hquote.symm, if_pos ⟨rfl, hback⟩]
  exact fun _ _ hc => absurd hc (by decide)

theorem cutQuotation_other {c : Char} (hescape : c = '\\' → cs = []) (hquote : c ≠ quote)
    (hbreak : ¬ (c = '\n' ∧ quote ≠ '\x60')) :
    cutQuotation quote (c :: cs) = (c :: (cutQuotation quote cs).1, (cutQuotation quote cs).2) := by
  rw [cutQuotation, if_neg hquote, if_neg hbreak]
  rintro d cs' hc rfl
  cases hescape hc

theorem cutQuotation_congr (h : cutQuotation quote (body ++ r) = (body, r)) (hr : r ≠ [])
    (hline : r.head? = some '\n' → r'.head? = some '\n') : cutQuotation quote (body ++ r') = (body, r') := by
  generalize hcs : body ++ r = cs at h
  induction cs using cutQuotation.induct quote generalizing body with
  | case1 => exact absurd (List.append_eq_nil_iff.1 hcs).2 hr
  | case2 c cs ih =>
    rw [cutQuotation] at h
    obtain ⟨rfl, hrest⟩ := Prod.mk.inj h
    have hcut := ih (by simpa using hcs) (by rw [← hrest])
    rw [List.cons_append, List.cons_append, cutQuotation, hcut]
  | case3 cs hescape =>
    have hquote : quote = '\\' → cs = [] := fun hquote => eq_nil_of_ne_cons fun d cs' => hescape d cs' hquote
    rw [cutQuotation_quote hquote] at h
    obtain ⟨rfl, rfl⟩ := Prod.mk.inj h
    exact cutQuotation_quote fun hbackslash => absurd (hquote hbackslash) hr
  | case4 c cs hescape hquote hbreak =>
    obtain ⟨rfl, hback⟩ := hbreak
    rw [cutQuotation_break (Ne.symm hquote) hback] at h
    obtain ⟨rfl, rfl⟩ := Prod.mk.inj h
    obtain ⟨rest, rfl⟩ := List.head?_eq_some_iff.1 (hline rfl)
    exact cutQuotation_break (Ne.symm hquote) hback rest
  | case5 c cs hescape hquote hbreak ih =>
    have hc : c = '\\' → cs = [] := fun hc => eq_nil_of_ne_cons fun d cs' => hescape d cs' hc
    rw [cutQuotation_other hc hquote hbreak] at h
    obtain ⟨rfl, hrest⟩ := Prod.mk.inj h
    have hcs' : (cutQuotation quote cs).1 ++ r = cs := (List.cons.inj hcs).2
    have hcut := ih hcs' (by rw [← hrest])
    -- a backslash would take the next character with it
    have hbackslash : c ≠ '\\' := by
      intro heq
      rw [hc heq] at hcs'
      exact hr (List.append_eq_nil_iff.1 hcs').2
    rw [List.cons_append, cutQuotation_other (fun heq => absurd heq hbackslash) hquote hbreak, hcut]

theorem cutBlock_other {c : Char} (h : c = '*' → cs.head? ≠ some '/') :
    cutBlock (c :: cs) = (c :: (cutBlock cs).1, (cutBlock cs).2) := by
  rw [cutBlock]
  rintro cs' hc rfl
  exact h hc rfl

theorem cutBlock_fst_ne_nil (h : cs ≠ []) : (cutBlock cs).1 ≠ [] := by
  fun_cases cutBlock cs with
  | case1 => exact absurd rfl h
  | case2 cs => simp
  | case3 c cs hclose => simp

theorem cutBlock_congr (h : cutBlock (body ++ r) = (body, r)) (hr : r ≠ []) :
    cutBlock (body ++ r') = (body, r') := by
  generalize hcs : body ++ r = cs at h
  induction cs using cutBlock.induct generalizing body with
  | case1 => exact absurd (List.append_eq_nil_iff.1 hcs).2 hr
  | case2 cs =>
    obtain ⟨rfl, rfl⟩ := Prod.mk.inj h
    exact cutBlock.eq_2 r'
  | case3 c cs hclose ih =>
    have hc : c = '*' → cs.head? ≠ some '/' := by
      intro hc hslash
      obtain ⟨cs', rfl⟩ := List.head?_eq_some_iff.1 hslash
      exact hclose cs' hc rfl
    rw [cutBlock_other hc] at h
    obtain ⟨rfl, hrest⟩ := Prod.mk.inj h
    have hcs' : (cutBlock cs).1 ++ r = cs := (List.cons.inj hcs).2
    have hcut := ih hcs' (by rw [← hrest])
    -- what follows the first character starts in the comment, so it starts as before
    have hhead : ((cutBlock cs).1 ++ r').head? = cs.head? := by
      cases hfirst : (cutBlock cs).1 with
      | nil =>
        refine absurd hfirst (cutBlock_fst_ne_nil ?_)
        rintro rfl
        exact hr (List.append_eq_nil_iff.1 hcs').2
      | cons d ds =>
        rw [hfirst] at hcs'
        rw [← hcs']
        rfl
    rw [List.cons_append, cutBlock_other (fun h => hhead ▸ hc h), hcut]

/-- Behind a comment up to the end of its line stands this end, or nothing. -/
theorem head_of_cutLine (h : cutLine (body ++ r) = (body, r)) : ∀ c ∈ r.head?, c = '\n' := by
  have hhead := List.head?_dropWhile_not (· != '\n') (body ++ r)
  rw [(Prod.mk.inj h).2] at hhead
  cases r with
  | nil => simp
  | cons c r => simpa using hhead

theorem cutLine_congr (h : cutLine (body ++ r) = (body, r)) (hr : r ≠ [])
    (hline : r.head? = some '\n' → r'.head? = some '\n') : cutLine (body ++ r') = (body, r') := by
  obtain ⟨htake, hdrop⟩ := Prod.mk.inj h
  have hbody : '\n' ∉ body := by
    rw [← htake]
    intro hmem
    simpa using List.all_eq_true.1 List.all_takeWhile _ hmem
  have hhead : r.head? = some '\n' := by
    obtain ⟨c, rest, rfl⟩ := List.exists_cons_of_ne_nil hr
    exact congrArg some (head_of_cutLine h c rfl)
  obtain ⟨rest, rfl⟩ := List.head?_eq_some_iff.1 (hline hhead)
  rw [cutLine, Text.takeWhile_bne hbody, Text.dropWhile_bne hbody]

/-- A block comment ends with a slash, if something stands behind it. -/
theorem getLast?_of_cutBlock (h : cutBlock (body ++ r) = (body, r)) (hr : r ≠ []) :
    body.getLast? = some '/' := by
  generalize hcs : body ++ r = cs at h
  induction cs using cutBlock.induct generalizing body with
  | case1 => exact absurd (List.append_eq_nil_iff.1 hcs).2 hr
  | case2 cs =>
    obtain ⟨rfl, rfl⟩ := Prod.mk.inj h
    rfl
  | case3 c cs hclose ih =>
    rw [cutBlock.eq_3 c cs hclose] at h
    obtain ⟨rfl, hrest⟩ := Prod.mk.inj h
    have hlast := ih (List.cons.inj hcs).2 (by rw [← hrest])
    rw [List.getLast?_cons, hlast]
    rfl

/-- A comment ends with a slash, or a line ends behind it. -/
theorem Piece.comment_end (h : Piece ⟨.comment, text⟩ r) :
    text.getLast? = some '/' ∨ ∀ c ∈ r.head?, c = '\n' := by
  cases h with
  | line h => exact .inr (head_of_cutLine h)
  | block h =>
    by_cases hr : r = []
    · exact .inr (by simp [hr])
    · left
      rw [List.getLast?_cons_cons, List.getLast?_cons, getLast?_of_cutBlock h hr]
      rfl

/-- What stands behind a piece may be exchanged for something that starts like it.  Behind a piece that ends
by itself something else than a comment sign may stand. -/
theorem Piece.congr (h : Piece seg r) (hr : r ≠ []) (hline : r.head? = some '\n' → r'.head? = some '\n')
    (hslash : ∀ d ∈ r'.head?, d = '/' ∨ d = '*' → r.head? = some d) : Piece seg r' := by
  cases h with
  | code hquote hcode =>
    refine .code hquote fun hc d hd => ⟨?_, ?_⟩
    · rintro rfl
      exact (hcode hc _ (hslash _ hd (.inl rfl))).1 rfl
    · rintro rfl
      exact (hcode hc _ (hslash _ hd (.inr rfl))).2 rfl
  | quotation hquote h => exact .quotation hquote (cutQuotation_congr h hr hline)
  | line h => exact .line (cutLine_congr h hr hline)
  | block h => exact .block (cutBlock_congr h hr)

/-! ### Texts with the same pieces -/

/-- Two texts have the same pieces up to a place where one goes on with `t` and the other one with `t'`, or
they are the same. -/
inductive SamePieces (t t' : List Char) : List Char → List Char → Prop where
  | refl (r : List Char) : SamePieces t t' r r
  | split : SamePieces t t' t t'
  | piece {seg : Segment} {r r' : List Char} (h : Piece seg r) (h' : Piece seg r')
    (hrest : SamePieces t t' r r') : SamePieces t t' (seg.text ++ r) (seg.text ++ r')

theorem SamePieces.symm (h : SamePieces t t' r r') : SamePieces t' t r' r := by
  induction h with
  | refl r => exact .refl r
  | split => exact .split
  | piece h h' _ ih => exact .piece h' h ih

/-- A comment sign in a script may be exchanged for a blank, and the pieces in front of it stay the same. -/
theorem exists_samePieces (hslash : t.head? = some '/') (hblank : t'.head? = some ' ')
    (h : segments r = segs ++ segments t) :
    ∃ l, r = l ++ t ∧ SamePieces t t' r (l ++ t') ∧ segments (l ++ t') = segs ++ segments t' := by
  induction segs generalizing r with
  | nil =>
    obtain rfl := eq_of_segments_eq h
    exact ⟨[], rfl, .split, rfl⟩
  | cons seg segs ih =>
    obtain ⟨rest, rfl, hpiece, hrest⟩ := exists_piece h
    obtain ⟨l, rfl, hsame, hsegments⟩ := ih hrest
    have hpiece' : Piece seg (l ++ t') := by
      cases l with
      | nil =>
        refine hpiece.congr ?_ ?_ ?_
        · rintro rfl
          cases hslash
        · intro hline
          cases hslash.symm.trans hline
        · intro d hd
          obtain rfl : ' ' = d := Option.some.inj (hblank.symm.trans hd)
          rintro (h | h) <;> cases h
      | cons c l => exact hpiece.congr (List.cons_ne_nil c _) id fun d hd _ => hd
    refine ⟨seg.text ++ l, by rw [List.append_assoc], ?_, ?_⟩
    · rw [List.append_assoc]
      exact .piece hpiece hpiece' hsame
    · rw [List.append_assoc, hpiece'.segments_append, hsegments]
      rfl

/-! ### Pieces and trivia -/

/-- A blank is a piece of its own. -/
theorem Piece.eq_nil_of_blank {c : Char} (h : Piece seg r) (htext : seg.text = c :: text)
    (hblank : Text.isBlank c = true) : text = [] := by
  cases h with
  | code => exact (List.cons.inj htext).2.symm
  | quotation hquote =>
    obtain ⟨rfl, -⟩ := List.cons.inj htext
    rcases hquote with rfl | rfl | rfl <;> cases hblank
  | line =>
    obtain ⟨rfl, -⟩ := List.cons.inj htext
    cases hblank
  | block =>
    obtain ⟨rfl, -⟩ := List.cons.inj htext
    cases hblank

theorem Piece.afterTrivia_code {c : Char} (h : Piece ⟨.code, [c]⟩ r) (hblank : Text.isBlank c = false) :
    Text.afterTrivia (c :: r) = c :: r := by
  cases h with
  | code _ hslash => exact Text.afterTrivia_cons hblank hslash

theorem Piece.afterTrivia_quotation (h : Piece ⟨.quotation, quote :: body⟩ r) :
    Text.afterTrivia (quote :: body ++ r) = quote :: (body ++ r) := by
  cases h with
  | quotation hquote =>
    refine Text.afterTrivia_cons ?_ fun hslash => absurd hslash (ne_slash hquote)
    rcases hquote with rfl | rfl | rfl <;> rfl

theorem afterLine_eq_tail (cs : List Char) : Text.afterLine cs = (cutLine cs).2.tail := by
  induction cs with
  | nil => rfl
  | cons c cs ih =>
    rw [Text.afterLine]
    by_cases hc : c = '\n'
    · rw [if_pos hc, hc]
      rfl
    · have hdrop : (cutLine (c :: cs)).2 = (cutLine cs).2 := by simp [cutLine, hc]
      rw [if_neg hc, ih, hdrop]

theorem afterBlock_cases (cs : List Char) :
    Text.afterBlock cs = some (cutBlock cs).2 ∨ Text.afterBlock cs = none ∧ (cutBlock cs).2 = [] := by
  induction cs using cutBlock.induct with
  | case1 => exact .inr ⟨rfl, rfl⟩
  | case2 cs => exact .inl rfl
  | case3 c cs hclose ih =>
    have hafter : Text.afterBlock (c :: cs) = Text.afterBlock cs := by
      refine Text.afterBlock_cons fun rest heq => ?_
      obtain ⟨hc, hcs⟩ := List.cons.inj heq
      exact hclose rest hc hcs
    rw [hafter, cutBlock.eq_3 c cs hclose]
    exact ih

/-- A comment is skipped as trivia, unless it is a block comment without an end. -/
theorem Piece.afterTrivia_comment (h : Piece ⟨.comment, text⟩ r) :
    Text.afterTrivia (text ++ r) = Text.afterTrivia r ∨
      r = [] ∧ ∃ body, text = '/' :: '*' :: body ∧ Text.afterTrivia text = text := by
  cases h with
  | @line body _ h =>
    left
    show Text.afterTrivia ('/' :: '/' :: (body ++ r)) = _
    rw [Text.afterTrivia_line, afterLine_eq_tail, h]
    cases r with
    | nil => rfl
    | cons c rest =>
      obtain rfl : c = '\n' := head_of_cutLine h c rfl
      exact (Text.afterTrivia_blank rfl rest).symm
  | @block body _ h =>
    rcases afterBlock_cases (body ++ r) with hafter | ⟨hafter, hnil⟩
    · rw [h] at hafter
      exact .inl (Text.afterTrivia_block hafter)
    · rw [h] at hnil
      obtain rfl : r = [] := hnil
      rw [List.append_nil] at hafter
      exact .inr ⟨rfl, body, rfl, Text.afterTrivia_unclosed hafter⟩

end ScriptBundle.Script
