import ScriptBundle.Literal.Lookahead
import ScriptBundle.Proofs.Literal.CursorTokens
import ScriptBundle.Proofs.Literal.Derivation

/-!
# Literals that a cursor reads

In view of a reader with a cursor is always the first of the lexemes that are left, or the fault that ends them.
Each of its steps is one of the reader of lexemes: it takes the lexeme in view, or it meets the fault that the
other one meets.  A fault that lies behind the literal is in view at the end, and neither of them minds it.

## Main definitions

* `Lookahead.Shows`: what is in view in front of a list of lexemes.
* `Lookahead.Agrees`: a computation comes to what a reader of lexemes comes to.

## Main results

* `Shows.exists_bump`: behind a lexeme, the next one comes into view.
* `Shows.exists_close`: behind a closing mark, one byte further, the literal ends.
* `agrees_items`, `agrees_members`: arrays and objects are read alike if what they hold is, and the loops are long
  enough for them.
* `agrees_value`: **a literal is read with a cursor as it is read from the lexemes.**
* `decode_eq`, `decodePrefix_eq`: **the readers with a cursor end on every text, are not abandoned, and read what
  the readers of lexemes read.**
-/

namespace ScriptBundle

open Machine Literal

/-! ### The start and the end of a lexeme -/

namespace Lexeme

variable {cs : List Char} {l : Lexeme} {m : Mark}

theorem start_suffix (h : next? cs = .ok (some l)) : l.start <:+ cs :=
  (next?_eq_some_iff.1 h).1 ▸ Text.afterTrivia_suffix cs

theorem stop_suffix (h : next? cs = .ok (some l)) : l.stop <:+ cs := by
  have hread := Cursor.reads_nextToken (List.suffix_refl cs)
  rw [h] at hread
  exact hread.1

/-- A mark is one character. -/
theorem start_of_mark (h : next? cs = .ok (some l)) (hm : l.token = .mark m) : l.start = m.char :: l.stop := by
  have hscan := (next?_eq_some_iff.1 h).2
  rw [hm] at hscan
  rcases scanToken_cases hscan with ⟨m', hm', heq⟩ | ⟨quote, cs', -, -, hquoted⟩ |
    ⟨c, cs', -, -, hnumeral⟩ | ⟨c, cs', -, -, hword, -⟩
  · cases hm'
    exact heq
  · obtain ⟨_, -, htext⟩ := scanQuoted_eq_ok_iff.1 hquoted
    cases htext
  · obtain ⟨_, -, hnumber, -⟩ := scanNumeral_eq_ok_iff.1 hnumeral
    cases hnumber
  · cases hword

/-- A text has not more lexemes than characters. -/
theorem length_all_le (cs : List Char) : (all cs).1.length ≤ cs.length := by
  fun_induction all cs with
  | case1 => exact Nat.zero_le _
  | case2 => exact Nat.zero_le _
  | case3 cs l hnext following ih => exact Nat.succ_le_of_lt (Nat.lt_of_le_of_lt ih (next?_length hnext))

end Lexeme

namespace Lookahead

variable {α β : Type} {text cs : List Char} {view : Outlook} {ls : List Lexeme} {l : Lexeme} {fault : Option Stop}
  {m : Mark} {expected : Expectation}

/-! ### What is in view -/

/-- In view is the first of the lexemes `ls`, or what ends them if there are none. -/
inductive Shows (text : List Char) : Outlook → List Lexeme → Option Stop → Prop where
  | lexeme {cs : List Char} {l : Lexeme} {ls : List Lexeme} {fault : Option Stop} (stop : Nat) (hcs : cs <:+ text)
    (hnext : Lexeme.next? cs = .ok (some l)) (hall : Lexeme.all l.stop = (ls, fault)) :
    Shows text ⟨Text.offsetOf text l.stop, .ok ⟨some l.token, Text.offsetOf text l.start⟩, stop⟩ (l :: ls) fault
  | fault {s : Stop} (position stop : Nat) (hs : s.rest <:+ text) :
    Shows text ⟨position, .error (s.toError text), stop⟩ [] (some s)
  | ended (position stop : Nat) : Shows text ⟨position, .ok ⟨none, Text.offsetOf text []⟩, stop⟩ [] none

/-- The next token comes into view. -/
theorem exists_shows (h : cs <:+ text) :
    ∃ current position, (Cursor.nextToken text).Ends (Text.offsetOf text cs) current position ∧
      ∀ stop, Shows text ⟨position, current, stop⟩ (Lexeme.all cs).1 (Lexeme.all cs).2 := by
  have hread := Cursor.reads_nextToken h
  cases hnext : Lexeme.next? cs with
  | error s =>
    rw [hnext] at hread
    obtain ⟨hs, rest, -, hends⟩ := hread
    exact ⟨_, _, hends, fun stop => Lexeme.all_of_error hnext ▸ .fault _ stop hs⟩
  | ok o =>
    rw [hnext] at hread
    obtain ⟨-, hends⟩ := hread
    cases o with
    | none => exact ⟨_, _, hends, fun stop => Lexeme.all_of_none hnext ▸ .ended _ stop⟩
    | some l => exact ⟨_, _, hends, fun stop => Lexeme.all_of_next? hnext ▸ .lexeme stop h hnext rfl⟩

theorem Shows.length_le (h : Shows text view ls fault) : ls.length ≤ text.length := by
  cases h with
  | @lexeme cs l ls _ _ hcs hnext hall =>
    have hlength := Lexeme.length_all_le l.stop
    rw [hall] at hlength
    have hnext := Lexeme.next?_length hnext
    have hcs := hcs.length_le
    simp only [List.length_cons] at hlength ⊢
    omega
  | fault => exact Nat.zero_le _
  | ended => exact Nat.zero_le _

/-- Only at the end of the lexemes is a fault in view. -/
theorem Shows.ends_kind (h : Shows text view ls fault) (hls : ls = [] → fault = none) :
    kind.Ends view (.ok (ls.head?.map Lexeme.token)) view := by
  cases h with
  | lexeme stop hcs hnext hall => exact (ends_get _).bind (ends_pure _ _)
  | fault position stop hs => cases hls rfl
  | ended position stop => exact (ends_get _).bind (ends_pure _ _)

theorem Shows.ends_kind_cons (h : Shows text view (l :: ls) fault) : kind.Ends view (.ok (some l.token)) view :=
  h.ends_kind fun hnil => absurd hnil (List.cons_ne_nil l ls)

theorem Shows.ends_kind_mark {start stop : List Char} (h : Shows text view (⟨.mark m, start, stop⟩ :: ls) fault) :
    kind.Ends view (.ok (some (.mark m))) view := h.ends_kind_cons

theorem Shows.ends_kind_error {s : Stop} (h : Shows text view [] (some s)) :
    kind.Ends view (.error (s.toError text)) view := by
  cases h
  exact (ends_get _).bind (ends_throw _ _)

theorem Shows.ends_offset (h : Shows text view ls fault) (expected : Expectation) :
    offset.Ends view (.ok (Text.offsetOf text (refusal (endingOf fault) expected ls).rest)) view := by
  cases h with
  | lexeme stop hcs hnext hall => exact (ends_get _).bind (ends_pure _ _)
  | fault position stop hs => exact (ends_get _).bind (ends_pure _ _)
  | ended position stop => exact (ends_get _).bind (ends_pure _ _)

/-- A fault that is met is in the text. -/
theorem Shows.refusal_suffix (h : Shows text view ls fault) (expected : Expectation) :
    (refusal (endingOf fault) expected ls).rest <:+ text := by
  cases h with
  | lexeme stop hcs hnext hall => exact (Lexeme.start_suffix hnext).trans hcs
  | fault position stop hs => exact hs
  | ended position stop => exact List.nil_suffix

theorem ends_observe {σ τ : Type} {m : Machine τ α} {t t' : τ} {x : Except LiteralError α} (h : m.Ends t x t')
    (s : σ) : (observe m t : Machine σ _).Ends s (.ok (x, t')) s := by
  show Option.bind _ _ = _
  rw [show m.runFrom t = _ from h]
  rfl

theorem Shows.exists_bump (h : Shows text view (l :: ls) fault) :
    ∃ view', (bump text).Ends view (.ok ()) view' ∧ Shows text view' ls fault ∧ view'.stop = view.stop := by
  cases h with
  | lexeme stop hcs hnext hall =>
    obtain ⟨current, position, hends, hshows⟩ := exists_shows ((Lexeme.stop_suffix hnext).trans hcs)
    rw [hall] at hshows
    exact ⟨_, (ends_get _).bind ((ends_observe hends _).bind (ends_set _ _)), hshows stop, rfl⟩

/-- Whoever asks for a token at the end of the lexemes meets the fault there. -/
theorem Shows.ends_refused {f : Option Token → Lookahead α} (h : Shows text view ls fault)
    (hf : (ls = [] → fault = none) → (f (ls.head?.map Lexeme.token)).Ends view
      (.error ((refusal (endingOf fault) expected ls).toError text)) view) :
    (kind >>= f).Ends view (.error ((refusal (endingOf fault) expected ls).toError text)) view := by
  match ls, fault, h, hf with
  | [], some s, h, _ => exact h.ends_kind_error.bind_error
  | [], none, h, hf => exact (h.ends_kind fun _ => rfl).bind (hf fun _ => rfl)
  | l :: ls, fault, h, hf => exact (h.ends_kind_cons).bind (hf fun hnil => absurd hnil (List.cons_ne_nil l ls))

theorem Shows.ends_unexpected (h : Shows text view ls fault) :
    (unexpected expected : Lookahead α).Ends view
      (.error ((refusal (endingOf fault) expected ls).toError text)) view := by
  refine h.ends_refused fun hls => ?_
  cases ls with
  | nil =>
    obtain rfl := hls rfl
    exact (h.ends_offset expected).bind (ends_throw _ _)
  | cons l ls => exact (h.ends_offset expected).bind (ends_throw _ _)

theorem head?_ne_mark (h : ∀ start stop rest, ls = ⟨.mark m, start, stop⟩ :: rest → False) :
    ls.head?.map Lexeme.token ≠ some (.mark m) := by
  intro heq
  obtain ⟨⟨t, start, stop⟩, hl, rfl⟩ := Option.map_eq_some_iff.1 heq
  obtain ⟨rest, rfl⟩ := List.head?_eq_some_iff.1 hl
  exact h start stop rest rfl

theorem cons_ne_mark (h : ∀ start stop, l = ⟨.mark m, start, stop⟩ → False) :
    ∀ start stop rest, l :: ls = ⟨.mark m, start, stop⟩ :: rest → False :=
  fun start stop _ heq => h start stop (List.cons.inj heq).1

/-! ### Taking tokens -/

theorem Shows.withStop (h : Shows text view ls fault) (stop : Nat) : Shows text { view with stop } ls fault := by
  cases h with
  | lexeme _ hcs hnext hall => exact .lexeme stop hcs hnext hall
  | fault position _ hs => exact .fault position stop hs
  | ended position _ => exact .ended position stop

theorem Shows.stop_suffix (h : Shows text view (l :: ls) fault) : l.stop <:+ text := by
  cases h with
  | lexeme _ hcs hnext _ => exact (Lexeme.stop_suffix hnext).trans hcs

/-- Behind a closing mark, which is one byte, the literal ends. -/
theorem Shows.exists_close {start stop : List Char} (h : Shows text view (⟨.mark m, start, stop⟩ :: ls) fault) :
    ∃ view', (close text).Ends view (.ok ()) view' ∧ Shows text view' ls fault ∧
      view'.stop = Text.offsetOf text stop := by
  have hoffset := h.ends_offset .value
  -- the mark is all that stands between its start and the text behind it
  have hmove : Text.offsetOf text start + 1 = Text.offsetOf text stop := by
    cases h with
    | lexeme _ hcs hnext _ =>
      obtain rfl : start = m.char :: stop := Lexeme.start_of_mark hnext rfl
      have hsize : m.char.utf8Size = 1 := by cases m <;> rfl
      rw [← hsize]
      exact Text.offsetOf_cons ((Lexeme.start_suffix hnext).trans hcs)
  obtain ⟨view', hbump, hshows, hstop⟩ := (h.withStop (Text.offsetOf text start + 1)).exists_bump
  exact ⟨view', hoffset.bind ((ends_modify _ _).bind hbump), hshows, hstop.trans hmove⟩

/-- A scalar ends where the cursor stands. -/
theorem Shows.exists_scalar (h : Shows text view (l :: ls) fault) (v : Value) :
    ∃ view', (scalar text v).Ends view (.ok v) view' ∧ Shows text view' ls fault ∧
      view'.stop = Text.offsetOf text l.stop := by
  have hposition : view.position = Text.offsetOf text l.stop := by cases h; rfl
  obtain ⟨view', hbump, hshows, hstop⟩ := (h.withStop view.position).exists_bump
  exact ⟨view', (ends_modify _ _).bind (hbump.bind (ends_pure _ _)), hshows, hstop.trans hposition⟩

theorem Shows.exists_expect {start stop : List Char} (h : Shows text view (⟨.mark m, start, stop⟩ :: ls) fault) :
    ∃ view', (expect text m expected).Ends view (.ok ()) view' ∧ Shows text view' ls fault := by
  obtain ⟨view', hbump, hshows, -⟩ := h.exists_bump
  refine ⟨view', h.ends_kind_mark.bind ?_, hshows⟩
  rw [if_pos rfl]
  exact hbump

theorem Shows.ends_expect_other (h : Shows text view ls fault)
    (hls : ∀ start stop rest, ls = ⟨.mark m, start, stop⟩ :: rest → False) :
    (expect text m expected).Ends view (.error ((refusal (endingOf fault) expected ls).toError text)) view := by
  refine h.ends_refused fun _ => ?_
  rw [if_neg (head?_ne_mark hls)]
  exact h.ends_unexpected

theorem Shows.exists_goOn_comma {start stop : List Char} {closing : Mark}
    (h : Shows text view (⟨.mark .comma, start, stop⟩ :: ls) fault) :
    ∃ view', (goOn text closing expected).Ends view (.ok ()) view' ∧ Shows text view' ls fault := by
  obtain ⟨view', hbump, hshows, -⟩ := h.exists_bump
  refine ⟨view', h.ends_kind_mark.bind ?_, hshows⟩
  rw [if_pos rfl]
  exact hbump

theorem Shows.ends_goOn_closing {start stop : List Char} {closing : Mark} (hclosing : closing ≠ .comma)
    (h : Shows text view (⟨.mark closing, start, stop⟩ :: ls) fault) :
    (goOn text closing expected).Ends view (.ok ()) view := by
  refine h.ends_kind_mark.bind ?_
  rw [if_neg (by simpa using hclosing), if_pos rfl]
  exact ends_pure _ _

theorem Shows.ends_goOn_other {closing : Mark} (h : Shows text view ls fault)
    (hcomma : ∀ start stop rest, ls = ⟨.mark .comma, start, stop⟩ :: rest → False)
    (hclosing : ∀ start stop rest, ls = ⟨.mark closing, start, stop⟩ :: rest → False) :
    (goOn text closing expected).Ends view (.error ((refusal (endingOf fault) expected ls).toError text)) view := by
  refine h.ends_refused fun _ => ?_
  rw [if_neg (head?_ne_mark hcomma), if_neg (head?_ne_mark hclosing)]
  exact h.ends_unexpected

/-! ### Readers of lexemes -/

/-- A computation comes to what a reader of lexemes comes to, seen through `g`: to its result, with the text
behind it as the end and the lexemes behind it in view, or to its fault. -/
def Agrees {n : Nat} (text : List Char) (fault : Option Stop) (c : Lookahead β) (view : Outlook) (g : α → β) :
    Except Stop (Parsed α n) → Prop
  | .ok p => p.stop <:+ text ∧
    ∃ view', c.Ends view (.ok (g p.result)) view' ∧ Shows text view' p.rest fault ∧
      view'.stop = Text.offsetOf text p.stop
  | .error s => s.rest <:+ text ∧ ∃ view', c.Ends view (.error (s.toError text)) view'

variable {n n' : Nat} {c : Lookahead β} {g : α → β} {x : Except Stop (Parsed α n)} {view' : Outlook}

/-- A step that changes only what is in view. -/
theorem Agrees.after {γ : Type} {d : Lookahead γ} {f : γ → Lookahead β} {b : γ}
    (h : Agrees text fault (f b) view' g x) (hd : d.Ends view (.ok b) view') :
    Agrees text fault (d >>= f) view g x := by
  match x, h with
  | .ok p, ⟨hstop, view'', hf, hshows⟩ => exact ⟨hstop, view'', hd.bind hf, hshows⟩
  | .error s, ⟨hs, view'', hf⟩ => exact ⟨hs, view'', hd.bind hf⟩

theorem agrees_error {s : Stop} {γ : Type} {d : Lookahead γ} {f : γ → Lookahead β} (hs : s.rest <:+ text)
    (hd : d.Ends view (.error (s.toError text)) view') :
    Agrees text fault (d >>= f) view g (.error s : Except Stop (Parsed α n)) :=
  ⟨hs, view', hd.bind_error⟩

theorem agrees_unexpected (h : Shows text view ls fault) (expected : Expectation) :
    Agrees text fault (unexpected expected : Lookahead β) view g
      (.error (refusal (endingOf fault) expected ls) : Except Stop (Parsed α n)) :=
  ⟨h.refusal_suffix expected, view, h.ends_unexpected⟩

theorem Agrees.widen {γ : Type} {x : Except Stop (Parsed γ n)} {k : γ → α} {hle : n ≤ n'} {g' : γ → β}
    (h : Agrees text fault c view g' x) (hg : ∀ r, g (k r) = g' r) :
    Agrees text fault c view g (x.map fun p => p.widen k hle) := by
  obtain rfl : g ∘ k = g' := funext hg
  match x, h with
  | .ok p, h => exact h
  | .error s, h => exact h

theorem Agrees.map {γ : Type} (h : Agrees text fault c view g x) (k : β → γ) :
    Agrees text fault (do return k (← c)) view (fun a => k (g a)) x := by
  match x, h with
  | .ok p, ⟨hstop, view', hends, hshows⟩ => exact ⟨hstop, view', hends.bind (ends_pure _ _), hshows⟩
  | .error s, ⟨hs, view', hends⟩ => exact ⟨hs, view', hends.bind_error⟩

theorem agrees_pure {b : β} {p : Parsed α n} (h : Shows text view p.rest fault) (hsuffix : p.stop <:+ text)
    (hstop : view.stop = Text.offsetOf text p.stop) (hb : b = g p.result) :
    Agrees text fault (pure b : Lookahead β) view g (.ok p) :=
  ⟨hsuffix, view, hb ▸ ends_pure b view, h, hstop⟩

theorem Shows.agrees_kind {f : Option Token → Lookahead β} (h : Shows text view ls fault)
    (hempty : ls = [] → x = .error (endingOf fault))
    (hf : Agrees text fault (f (ls.head?.map Lexeme.token)) view g x) :
    Agrees text fault (kind >>= f) view g x := by
  match ls, fault, h with
  | [], some s, h =>
    rw [hempty rfl]
    exact agrees_error (h.refusal_suffix .value) h.ends_kind_error
  | [], none, h => exact hf.after (h.ends_kind fun _ => rfl)
  | l :: ls, fault, h => exact hf.after (h.ends_kind_cons)

theorem agrees_scalar (h : Shows text view (l :: ls) fault) (v : Value) :
    Agrees text fault (scalar text v) view id
      (.ok (⟨v, l.stop, ls, Nat.lt_succ_self _⟩ : Parsed Value (l :: ls).length)) := by
  obtain ⟨view', hscalar, hshows, hstop⟩ := h.exists_scalar v
  exact ⟨h.stop_suffix, view', hscalar, hshows, hstop⟩

/-! ### The parts of arrays and objects -/

section Parts

variable {n : Nat} {closing : Mark} {part : β → Lookahead β} {b b' : β} {start stop : List Char}

/-- The parts that are found in `n` rounds, and the closing mark behind them. -/
def partsWithin (text : List Char) (n : Nat) (closing : Mark) (expected : Expectation) (part : β → Lookahead β)
    (b : β) : Lookahead β := do
  let read ← rounds (nextPart text closing expected part) n b
  close text
  return read

/-- What the first round amounts to. -/
theorem partsWithin_succ :
    partsWithin text (n + 1) closing expected part b = (do
      if (← kind) = some (.mark closing) then
        close text
        return b
      else
        let b' ← part b
        goOn text closing expected
        partsWithin text n closing expected part b') := by
  rw [partsWithin, rounds, nextPart]
  -- the continuation goes to the end of either branch
  simp only [bind_assoc]
  refine congrArg _ (funext fun found => ?_)
  split
  · simp only [pure_bind]
  · simp only [bind_assoc, pure_bind]
    rfl

/-- The closing mark ends the parts. -/
theorem agrees_parts_close {k : Nat} {p : Parsed α k}
    (h : Shows text view (⟨.mark closing, start, p.stop⟩ :: p.rest) fault) (hb : b = g p.result) :
    Agrees text fault (partsWithin text (n + 1) closing expected part b) view g (.ok p) := by
  obtain ⟨view', hclose, hshows, hstop⟩ := h.exists_close
  rw [partsWithin_succ]
  refine Agrees.after ?_ h.ends_kind_mark
  rw [if_pos rfl]
  refine Agrees.after ?_ hclose
  exact agrees_pure hshows h.stop_suffix hstop hb

/-- A part is read, and then they go on. -/
theorem Shows.agrees_part (h : Shows text view ls fault) (hls : ls ≠ [])
    (hopen : ∀ start stop rest, ls = ⟨.mark closing, start, stop⟩ :: rest → False)
    (hpart : (part b).Ends view (.ok b') view')
    (hrest : Agrees text fault
      (do goOn text closing expected; partsWithin text n closing expected part b') view' g x) :
    Agrees text fault (partsWithin text (n + 1) closing expected part b) view g x := by
  rw [partsWithin_succ]
  refine h.agrees_kind (fun hnil => absurd hnil hls) ?_
  rw [if_neg (head?_ne_mark hopen)]
  refine Agrees.after ?_ hpart
  exact hrest

/-- Without a part there is a fault. -/
theorem Shows.agrees_part_error {k : Nat} {s : Stop} (h : Shows text view ls fault)
    (hopen : ∀ start stop rest, ls = ⟨.mark closing, start, stop⟩ :: rest → False)
    (hempty : ls = [] → s = endingOf fault) (hs : s.rest <:+ text)
    (hpart : (part b).Ends view (.error (s.toError text)) view') :
    Agrees text fault (partsWithin text (n + 1) closing expected part b) view g
      (.error s : Except Stop (Parsed α k)) := by
  rw [partsWithin_succ]
  refine h.agrees_kind (fun hnil => by rw [hempty hnil]) ?_
  rw [if_neg (head?_ne_mark hopen)]
  exact agrees_error hs hpart

theorem Shows.agrees_part_error_cons {k : Nat} {s : Stop} (h : Shows text view (l :: ls) fault)
    (hopen : ∀ start stop, l = ⟨.mark closing, start, stop⟩ → False) (hs : s.rest <:+ text)
    (hpart : (part b).Ends view (.error (s.toError text)) view') :
    Agrees text fault (partsWithin text (n + 1) closing expected part b) view g
      (.error s : Except Stop (Parsed α k)) :=
  h.agrees_part_error (cons_ne_mark hopen) (fun hnil => absurd hnil (List.cons_ne_nil l ls)) hs hpart

/-- Behind a part, the closing mark ends the parts as well. -/
theorem Shows.agrees_goOn_close {k : Nat} {p : Parsed α k}
    (h : Shows text view (⟨.mark closing, start, p.stop⟩ :: p.rest) fault) (hclosing : closing ≠ .comma)
    (hb : b = g p.result) :
    Agrees text fault (do goOn text closing expected; partsWithin text (n + 1) closing expected part b) view g
      (.ok p) := by
  refine Agrees.after ?_ (h.ends_goOn_closing hclosing)
  exact agrees_parts_close h hb

/-- Behind a part, there is a fault if neither a comma nor the closing mark follows. -/
theorem Shows.agrees_goOn_other {γ : Type} {c : Lookahead γ} {g : α → γ} {k : Nat} (h : Shows text view ls fault)
    (hcomma : ∀ start stop rest, ls = ⟨.mark .comma, start, stop⟩ :: rest → False)
    (hclosing : ∀ start stop rest, ls = ⟨.mark closing, start, stop⟩ :: rest → False) :
    Agrees text fault (do goOn text closing expected; c) view g
      (.error (refusal (endingOf fault) expected ls) : Except Stop (Parsed α k)) :=
  agrees_error (h.refusal_suffix _) (h.ends_goOn_other hcomma hclosing)

end Parts

/-! ### Arrays and objects -/

/-- Behind a part and a mark there are fewer lexemes than rounds that are left. -/
theorem exists_round {n : Nat} {rest : List Lexeme} (hshorter : (l :: rest).length < ls.length)
    (hn : ls.length ≤ n) : ∃ m, n = m + 1 ∧ rest.length ≤ m := by
  rw [List.length_cons] at hshorter
  exact ⟨n - 1, by omega, by omega⟩

section Insides

variable {n : Nat} {inner : Lookahead Value} {reader : Reader Value} {start stop : List Char} {key : Lexeme}
  {k : String}
  (hinner : ∀ ls view, Shows text view ls fault → Agrees text fault inner view id (reader ls))

include hinner

theorem exists_item {p : Parsed Value ls.length} (h : Shows text view ls fault) (hread : reader ls = .ok p)
    (read : List Value) :
    ∃ view', (item inner read).Ends view (.ok (read ++ [p.result])) view' ∧ Shows text view' p.rest fault := by
  obtain ⟨-, view', hends, hshows, -⟩ := hread ▸ hinner ls view h
  exact ⟨view', hends.bind (ends_pure _ _), hshows⟩

theorem agrees_items (hempty : reader [] = .error (endingOf fault)) (h : Shows text view ls fault)
    (hn : ls.length ≤ n) (read : List Value) :
    Agrees text fault (partsWithin text (n + 1) .closeBracket .itemEnd (item inner) read) view (read ++ ·)
      (Literal.items (endingOf fault) reader ls) := by
  -- every item takes a lexeme, so there is a round left for each of those that remain
  fun_induction Literal.items (endingOf fault) reader ls generalizing view read n with
  | case1 start stop rest =>
    exact agrees_parts_close h (by simp)
  | case2 ls hopen e he =>
    obtain ⟨hs, view', hends⟩ := he ▸ hinner ls view h
    refine h.agrees_part_error hopen (fun hnil => ?_) hs hends.bind_error
    rw [hnil, hempty] at he
    exact (Except.error.inj he).symm
  | case3 ls hopen v stop start stop' rest shorter shorter' hv ih =>
    obtain ⟨n, rfl, hn'⟩ : ∃ m, n = m + 1 ∧ rest.length ≤ m := exists_round shorter' hn
    obtain ⟨view', hitem, hshows⟩ := exists_item hinner h hv read
    refine h.agrees_part (List.ne_nil_of_length_pos (Nat.zero_lt_of_lt shorter')) hopen hitem ?_
    obtain ⟨view'', hgo, hshows'⟩ := hshows.exists_goOn_comma
    refine Agrees.after ?_ hgo
    exact (ih hshows' hn' (read ++ [v])).widen (by simp)
  | case4 ls hopen v stop start stop' rest shorter shorter' hv =>
    obtain ⟨n, rfl, -⟩ := exists_round shorter' hn
    obtain ⟨view', hitem, hshows⟩ := exists_item hinner h hv read
    refine h.agrees_part (List.ne_nil_of_length_pos (Nat.zero_lt_of_lt shorter')) hopen hitem ?_
    exact hshows.agrees_goOn_close (by decide) rfl
  | case5 ls hopen v stop rest shorter hcomma hclose shorter' hv =>
    obtain ⟨view', hitem, hshows⟩ := exists_item hinner h hv read
    refine h.agrees_part (List.ne_nil_of_length_pos (Nat.zero_lt_of_lt shorter)) hopen hitem ?_
    refine hshows.agrees_goOn_other ?_ ?_
    · rintro start stop rest' rfl
      exact hcomma start stop rest' shorter rfl HEq.rfl
    · rintro start stop rest' rfl
      exact hclose start stop rest' shorter rfl HEq.rfl

omit hinner in
/-- Without a key there is no member. -/
theorem ends_member_refused (h : Shows text view ls fault) (hkey : (ls.head?.map Lexeme.token).bind keyText? = none)
    (inner : Lookahead Value) (sorted : List (String × Value)) :
    (member text inner sorted).Ends view (.error ((refusal (endingOf fault) .key ls).toError text)) view := by
  refine h.ends_refused fun _ => ?_
  rw [hkey]
  exact h.ends_unexpected

omit hinner in
/-- Behind its key, a member goes on. -/
theorem exists_memberKey (h : Shows text view (key :: ls) fault) (hkey : keyText? key.token = some k)
    (inner : Lookahead Value) (sorted : List (String × Value)) :
    ∃ view', Shows text view' ls fault ∧ ∀ x view'',
      Ends (do expect text .colon .colon; return Sorted.insert k (← inner) sorted) view' x view'' →
        (member text inner sorted).Ends view x view'' := by
  obtain ⟨view', hbump, hshows, -⟩ := h.exists_bump
  refine ⟨view', hshows, fun x view'' hends => (h.ends_kind_cons).bind ?_⟩
  rw [Option.bind_some, hkey]
  exact hbump.bind hends

theorem exists_member {p : Parsed Value ls.length}
    (h : Shows text view (key :: ⟨.mark .colon, start, stop⟩ :: ls) fault) (hkey : keyText? key.token = some k)
    (hread : reader ls = .ok p) (sorted : List (String × Value)) :
    ∃ view', (member text inner sorted).Ends view (.ok (Sorted.insert k p.result sorted)) view' ∧
      Shows text view' p.rest fault := by
  obtain ⟨view₁, hshows₁, hmember⟩ := exists_memberKey h hkey inner sorted
  obtain ⟨view₂, hexpect, hshows₂⟩ := hshows₁.exists_expect
  obtain ⟨-, view₃, hends, hshows₃, -⟩ := hread ▸ hinner ls view₂ hshows₂
  exact ⟨view₃, hmember _ _ (hexpect.bind (hends.bind (ends_pure _ _))), hshows₃⟩

theorem agrees_members (h : Shows text view ls fault) (hn : ls.length ≤ n) (sorted : List (String × Value)) :
    Agrees text fault (partsWithin text (n + 1) .closeBrace .memberEnd (member text inner) sorted) view
      (fun ms => ms.foldl (fun sorted m => Sorted.insert m.1 m.2 sorted) sorted)
      (Literal.members (endingOf fault) reader ls) := by
  -- the members that have been read are sorted already, so the list of them may be any
  fun_induction Literal.members (endingOf fault) reader ls generalizing view sorted n with
  | case1 =>
    have hrefused := ends_member_refused h rfl inner sorted
    exact h.agrees_part_error (fun _ _ _ hnil => List.cons_ne_nil _ _ hnil.symm) (fun _ => rfl)
      (h.refusal_suffix .key) hrefused
  | case2 start stop rest =>
    exact agrees_parts_close h rfl
  | case3 key afterKey hopen hkey =>
    have hrefused := ends_member_refused h hkey inner sorted
    exact h.agrees_part_error_cons hopen (h.refusal_suffix .key) hrefused
  | case4 key hopen k hkey start stop ls e he =>
    obtain ⟨view₁, hshows₁, hmember⟩ := exists_memberKey h hkey inner sorted
    obtain ⟨view₂, hexpect, hshows₂⟩ := hshows₁.exists_expect
    obtain ⟨hs, view₃, hends⟩ := he ▸ hinner ls view₂ hshows₂
    exact h.agrees_part_error_cons hopen hs (hmember _ _ (hexpect.bind hends.bind_error))
  | case5 key hopen k hkey colonStart colonStop ls v stop' start stop rest shorter shorter' hv ih =>
    obtain ⟨n, rfl, hn'⟩ := exists_round shorter' (Nat.le_of_succ_le (Nat.le_of_succ_le hn))
    obtain ⟨view', hmember, hshows⟩ := exists_member hinner h hkey hv sorted
    refine h.agrees_part (List.cons_ne_nil _ _) (cons_ne_mark hopen) hmember ?_
    obtain ⟨view'', hgo, hshows'⟩ := hshows.exists_goOn_comma
    refine Agrees.after ?_ hgo
    exact (ih hshows' hn' _).widen fun _ => rfl
  | case6 key hopen k hkey colonStart colonStop ls v stop' start stop rest shorter shorter' hv =>
    obtain ⟨n, rfl, -⟩ := exists_round shorter' (Nat.le_of_succ_le (Nat.le_of_succ_le hn))
    obtain ⟨view', hmember, hshows⟩ := exists_member hinner h hkey hv sorted
    refine h.agrees_part (List.cons_ne_nil _ _) (cons_ne_mark hopen) hmember ?_
    exact hshows.agrees_goOn_close (by decide) rfl
  | case7 key hopen k hkey start stop ls v stop' rest shorter hcomma hclose shorter' hv =>
    obtain ⟨view', hmember, hshows⟩ := exists_member hinner h hkey hv sorted
    refine h.agrees_part (List.cons_ne_nil _ _) (cons_ne_mark hopen) hmember ?_
    refine hshows.agrees_goOn_other ?_ ?_
    · rintro start stop rest' rfl
      exact hcomma start stop rest' shorter rfl HEq.rfl
    · rintro start stop rest' rfl
      exact hclose start stop rest' shorter rfl HEq.rfl
  | case8 key hopen k hkey afterKey hcolon =>
    obtain ⟨view', hshows, hmember⟩ := exists_memberKey h hkey inner sorted
    have hexpect := hmember _ _ (hshows.ends_expect_other hcolon).bind_error
    exact h.agrees_part_error_cons hopen (hshows.refusal_suffix _) hexpect

end Insides

/-! ### Literals -/

theorem Shows.ends_tooDeep (h : Shows text view (l :: ls) fault) (inside : Lookahead Value → Lookahead Value) :
    (nested text none inside).Ends view (.error ⟨.tooDeep maxDepth, Text.offsetOf text l.start⟩) view :=
  (h.ends_offset .value).bind (ends_throw _ _)

theorem Shows.agrees_nested {inner : Lookahead Value} {inside : Lookahead Value → Lookahead Value} {g : α → Value}
    (h : Shows text view (l :: ls) fault)
    (hinside : ∀ view', Shows text view' ls fault → Agrees text fault (inside inner) view' g x) :
    Agrees text fault (nested text (some inner) inside) view g x := by
  obtain ⟨view', hbump, hshows, -⟩ := h.exists_bump
  refine Agrees.after ?_ hbump
  exact hinside view' hshows

/-- A literal is read alike if those inside of it are. -/
theorem agrees_literal {room : Nat} {inner : Option (Lookahead Value)} (hnone : room = 0 → inner = none)
    (hsome : ∀ r, room = r + 1 → ∃ v, inner = some v ∧ ∀ ls view, Shows text view ls fault →
      Agrees text fault v view id (Literal.value (endingOf fault) r ls))
    (h : Shows text view ls fault) :
    Agrees text fault (literal text inner) view id (Literal.value (endingOf fault) room ls) := by
  fun_induction Literal.value (endingOf fault) room ls with
  | case1 =>
    refine h.agrees_kind (fun _ => rfl) ?_
    exact agrees_unexpected h .value
  | case2 s start stop rest =>
    refine Agrees.after ?_ (h.ends_kind_cons)
    exact agrees_scalar h _
  | case3 n start stop rest =>
    refine Agrees.after ?_ (h.ends_kind_cons)
    exact agrees_scalar h _
  | case4 w start stop rest =>
    refine Agrees.after ?_ (h.ends_kind_cons)
    exact agrees_scalar h _
  | case5 start stop rest =>
    obtain rfl := hnone rfl
    refine Agrees.after ?_ h.ends_kind_mark
    exact ⟨h.refusal_suffix .value, view, h.ends_tooDeep _⟩
  | case6 start stop rest =>
    obtain rfl := hnone rfl
    refine Agrees.after ?_ h.ends_kind_mark
    exact ⟨h.refusal_suffix .value, view, h.ends_tooDeep _⟩
  | case7 room start stop rest =>
    obtain ⟨inner, rfl, hinner⟩ := hsome room rfl
    refine Agrees.after ?_ h.ends_kind_mark
    refine h.agrees_nested fun view' hshows => ?_
    have hmembers := agrees_members hinner hshows hshows.length_le []
    exact (hmembers.map Value.object).widen fun _ => rfl
  | case8 room start stop rest =>
    obtain ⟨inner, rfl, hinner⟩ := hsome room rfl
    refine Agrees.after ?_ h.ends_kind_mark
    refine h.agrees_nested fun view' hshows => ?_
    have hempty : Literal.value (endingOf fault) room [] = .error (endingOf fault) := by rw [Literal.value.eq_def]
    have hitems := agrees_items hinner hempty hshows hshows.length_le []
    exact (hitems.map Value.array).widen fun _ => rfl
  | case9 room l rest htext hnumber hword hbrace hbracket hbrace' hbracket' =>
    -- only the marks that open nothing are left
    obtain ⟨t, start, stop⟩ := l
    refine Agrees.after ?_ (h.ends_kind_cons)
    cases t with
    | text s => exact (htext s start stop rfl).elim
    | number n => exact (hnumber n start stop rfl).elim
    | word w => exact (hword w start stop rfl).elim
    | mark m =>
      cases m with
      | openBrace =>
        cases room with
        | zero => exact (hbrace start stop rfl rfl).elim
        | succ room => exact (hbrace' room start stop rfl rfl).elim
      | openBracket =>
        cases room with
        | zero => exact (hbracket start stop rfl rfl).elim
        | succ room => exact (hbracket' room start stop rfl rfl).elim
      | closeBrace | closeBracket | colon | comma => exact agrees_unexpected h _

/-- **A literal is read with a cursor as it is read from the lexemes.** -/
theorem agrees_value (room : Nat) (h : Shows text view ls fault) :
    Agrees text fault (value text room) view id (Literal.value (endingOf fault) room ls) := by
  induction room generalizing ls view with
  | zero => exact agrees_literal (fun _ => rfl) (fun r hr => absurd hr (Nat.succ_ne_zero r).symm) h
  | succ room ih =>
    refine agrees_literal (fun hzero => absurd hzero (Nat.succ_ne_zero room)) (fun r hr => ?_) h
    obtain rfl := Nat.succ.inj hr
    exact ⟨value text room, rfl, fun _ _ hshows => ih hshows⟩

/-! ### Whole texts -/

/-- The literal at the front of a text, and what is in view behind it. -/
theorem exists_readFront (h : Shows text view (Lexeme.all text).1 (Lexeme.all text).2) :
    ∃ view', match readFront text with
      | .error s => s.rest <:+ text ∧ (value text maxDepth).Ends view (.error (s.toError text)) view'
      | .ok front => front.stop <:+ text ∧ (value text maxDepth).Ends view (.ok front.value) view' ∧
        Shows text view' front.following front.fault ∧ view'.stop = Text.offsetOf text front.stop := by
  have hread := agrees_value maxDepth h
  unfold readFront
  generalize Lexeme.all text = lexemes at h hread
  obtain ⟨ls, fault⟩ := lexemes
  dsimp only at hread ⊢
  cases hvalue : Literal.value (endingOf fault) maxDepth ls with
  | error s =>
    rw [hvalue] at hread
    obtain ⟨hs, view', hends⟩ := hread
    exact ⟨view', hs, hends⟩
  | ok p =>
    rw [hvalue] at hread
    obtain ⟨hstop, view', hends, hshows, hend⟩ := hread
    exact ⟨view', hstop, hends, hshows, hend⟩

theorem ends_complete (h : Shows text view (Lexeme.all text).1 (Lexeme.all text).2) :
    ∃ view', (complete text).Ends view ((readAll text).mapError (Stop.toError text)) view' ∧
      ∀ s, readAll text = .error s → s.rest <:+ text := by
  obtain ⟨view', hread⟩ := exists_readFront h
  refine ⟨view', ?_⟩
  unfold readAll
  cases hfront : readFront text with
  | error s =>
    rw [hfront] at hread
    obtain ⟨hs, hends⟩ := hread
    exact ⟨hends.bind_error, by rintro s' ⟨⟩; exact hs⟩
  | ok front =>
    rw [hfront] at hread
    obtain ⟨-, hends, hshows, -⟩ := hread
    obtain ⟨v, stop, following, fault⟩ := front
    have hsuffix := hshows.refusal_suffix .value
    -- what is behind the literal: a lexeme, a fault or the end of the text
    match following, fault, hshows, hsuffix with
    | l :: following, fault, hshows, hsuffix =>
      refine ⟨hends.bind ((hshows.ends_kind_cons).bind ?_), by rintro s ⟨⟩; exact hsuffix⟩
      rw [if_neg nofun]
      exact (hshows.ends_offset .value).bind (ends_throw _ _)
    | [], some s, hshows, hsuffix =>
      exact ⟨hends.bind hshows.ends_kind_error.bind_error, by rintro s' ⟨⟩; exact hsuffix⟩
    | [], none, hshows, _ =>
      refine ⟨hends.bind ((hshows.ends_kind fun _ => rfl).bind ?_), nofun⟩
      dsimp only [List.head?_nil, Option.map_none]
      rw [if_pos rfl]
      exact ends_pure _ _

/-- What is read at the front of a text, and where it ends. -/
def frontResult (text : List Char) (front : Front) : Value × Nat := (front.value, Text.offsetOf text front.stop)

theorem ends_front (h : Shows text view (Lexeme.all text).1 (Lexeme.all text).2) :
    ∃ view', (front text).Ends view
        (((readFront text).mapError (Stop.toError text)).map (frontResult text)) view' ∧
      (∀ s, readFront text = .error s → s.rest <:+ text) ∧
      ∀ front, readFront text = .ok front → front.stop <:+ text := by
  obtain ⟨view', hread⟩ := exists_readFront h
  refine ⟨view', ?_⟩
  cases hfront : readFront text with
  | error s =>
    rw [hfront] at hread
    obtain ⟨hs, hends⟩ := hread
    exact ⟨hends.bind_error, by rintro s' ⟨⟩; exact hs, nofun⟩
  | ok front =>
    rw [hfront] at hread
    obtain ⟨hstop, hends, -, hend⟩ := hread
    refine ⟨hends.bind ((ends_get _).bind ?_), nofun, by rintro front' ⟨⟩; exact hstop⟩
    rw [hend]
    exact ends_pure _ _

theorem runOn_eq {m : Lookahead α} {x : Except LiteralError α}
    (h : ∀ view, Shows text view (Lexeme.all text).1 (Lexeme.all text).2 → ∃ view', m.Ends view x view') :
    runOn text m = some (.ok x) := by
  obtain ⟨current, position, hends, hshows⟩ := exists_shows (List.suffix_refl text)
  obtain ⟨view', hm⟩ := h _ (hshows 0)
  -- the first token comes into view with the cursor at the start
  have hstart : Text.offsetOf text text = 0 := Nat.sub_self _
  rw [Ends, hstart] at hends
  rw [Ends] at hm
  rw [runOn, hends]
  dsimp only
  rw [hm]
  rfl

/-- **The reader with a cursor ends on every text, is not abandoned, and reads what the reader of lexemes
reads.** -/
theorem decode_eq (text : String) : decode text = some (.ok (Literal.decode text)) :=
  runOn_eq fun view h => by
    obtain ⟨view', hends, -⟩ := ends_complete h
    exact ⟨view', hends⟩

theorem decodePrefix_eq (text : String) : decodePrefix text = some (.ok (Literal.decodePrefix text)) := by
  have heq : Literal.decodePrefix text
      = ((readFront text.toList).mapError (Stop.toError text.toList)).map (frontResult text.toList) := by
    unfold Literal.decodePrefix
    cases readFront text.toList <;> rfl
  rw [heq]
  exact runOn_eq fun view h => by
    obtain ⟨view', hends, -⟩ := ends_front h
    exact ⟨view', hends⟩

end Lookahead

end ScriptBundle
