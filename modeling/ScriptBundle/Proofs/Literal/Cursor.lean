import ScriptBundle.Literal.Cursor
import ScriptBundle.Proofs.Literal.Locality

/-!
# Moving a cursor

A computation on byte positions is described by what it does in front of a suffix of the text: it ends, it is
not abandoned, it finds what a reader of that suffix finds, and it leaves the cursor in front of a suffix of it.
Descriptions are put together like the computations that they describe.

## Main definitions

* `Machine.Ends`: a computation ends, and is not abandoned.
* `Cursor.Reads`: what a computation reads in front of a suffix of the text.
* `Cursor.Progress`: what a round of a loop does, given what the loop is to read.

## Main results

* `Reads.bind`, `Reads.bind_error`: what two computations read one after the other.
* `reads_loop`: a loop comes to its end if each round that is not the last one moves on.
* `reads_skipWhile`, `reads_skipTrivia`: the loops end where the text without these characters starts.
-/

namespace ScriptBundle

/-! ### How a computation ends -/

namespace Machine

variable {σ α β : Type} {m : Machine σ α} {f : α → Machine σ β} {s s' s'' : σ} {a : α}
  {x : Except LiteralError β} {e : LiteralError}

/-- A computation ends, and is not abandoned. -/
def Ends (m : Machine σ α) (s : σ) (x : Except LiteralError α) (s' : σ) : Prop :=
  m.runFrom s = some (.ok (x, s'))

theorem ends_pure (a : α) (s : σ) : Ends (pure a) s (.ok a) s := rfl

theorem ends_throw (e : LiteralError) (s : σ) : Ends (throw e : Machine σ α) s (.error e) s := rfl

theorem ends_get (s : σ) : Ends get s (.ok s) s := rfl

theorem ends_set (s s' : σ) : Ends (set s' : Machine σ PUnit) s (.ok ()) s' := rfl

theorem ends_modify (g : σ → σ) (s : σ) : Ends (modify g : Machine σ PUnit) s (.ok ()) (g s) := rfl

theorem runFrom_bind (m : Machine σ α) (f : α → Machine σ β) (s : σ) :
    runFrom (m >>= f) s = (runFrom m s).bind fun
      | .error reason => some (.error reason)
      | .ok (.error e, s') => some (.ok (.error e, s'))
      | .ok (.ok a, s') => runFrom (f a) s' := by
  show Option.bind _ _ = Option.bind _ _
  refine congrArg _ (funext fun r => ?_)
  rcases r with reason | ⟨e | a, s'⟩ <;> rfl

theorem Ends.bind (h : m.Ends s (.ok a) s') (hf : (f a).Ends s' x s'') : (m >>= f).Ends s x s'' := by
  rw [Ends, runFrom_bind, h]
  exact hf

theorem Ends.bind_error (h : m.Ends s (.error e) s') : (m >>= f).Ends s (.error e) s' := by
  rw [Ends, runFrom_bind, h]
  rfl

end Machine

/-! ### What a computation reads -/

namespace Cursor

open Machine

variable {α β : Type} {text cs before rest : List Char} {m : Cursor α} {f : α → Cursor β}
  {a : α} {x : Except Stop (β × List Char)} {s : Stop} {c : Char} {p : Char → Bool}

/-- With the cursor in front of `cs`, a computation reads a result and stops behind it, or it finds a fault in
the text and stops somewhere.  In either case it ends in front of a suffix of `cs`. -/
def Reads (text : List Char) (m : Cursor α) (cs : List Char) : Except Stop (α × List Char) → Prop
  | .ok (a, rest) => rest <:+ cs ∧ m.Ends (Text.offsetOf text cs) (.ok a) (Text.offsetOf text rest)
  | .error s => s.rest <:+ text ∧
    ∃ rest, rest <:+ cs ∧ m.Ends (Text.offsetOf text cs) (.error (s.toError text)) (Text.offsetOf text rest)

theorem reads_pure (a : α) (cs : List Char) : Reads text (pure a) cs (.ok (a, cs)) :=
  ⟨List.suffix_refl _, ends_pure a _⟩

theorem reads_throw (h : s.rest <:+ text) : Reads text (throw (s.toError text) : Cursor α) cs (.error s) :=
  ⟨h, cs, List.suffix_refl _, ends_throw _ _⟩

theorem Reads.suffix (h : Reads text m cs (.ok (a, rest))) (hcs : cs <:+ text) : rest <:+ text := h.1.trans hcs

theorem Reads.bind (h : Reads text m cs (.ok (a, rest))) (hf : Reads text (f a) rest x) :
    Reads text (m >>= f) cs x := by
  obtain ⟨hrest, hm⟩ := h
  match x, hf with
  | .ok (b, rest'), ⟨hrest', hf⟩ => exact ⟨hrest'.trans hrest, hm.bind hf⟩
  | .error s, ⟨hs, rest', hrest', hf⟩ => exact ⟨hs, rest', hrest'.trans hrest, hm.bind hf⟩

theorem Reads.bind_error (h : Reads text m cs (.error s)) : Reads text (m >>= f) cs (.error s) := by
  obtain ⟨hs, rest, hrest, hm⟩ := h
  exact ⟨hs, rest, hrest, hm.bind_error⟩

theorem reads_get (cs : List Char) : Reads text get cs (.ok (Text.offsetOf text cs, cs)) :=
  ⟨List.suffix_refl _, ends_get _⟩

theorem reads_set (h : rest <:+ cs) : Reads text (set (Text.offsetOf text rest)) cs (.ok ((), rest)) :=
  ⟨h, ends_set _ _⟩

/-! ### Moving on -/

theorem reads_modify (before : List Char) (h : before ++ rest <:+ text) :
    Reads text (modify (· + Text.byteCount before)) (before ++ rest) (.ok ((), rest)) := by
  refine ⟨List.suffix_append _ _, ?_⟩
  rw [← Text.offsetOf_add before h]
  exact ends_modify _ _

theorem reads_rest (h : cs <:+ text) : Reads text (Cursor.rest text) cs (.ok (cs, cs)) := by
  refine (reads_get cs).bind ?_
  rw [Text.dropBytes?_offsetOf h]
  exact reads_pure cs cs

theorem reads_since (heq : before ++ rest = cs) (h : cs <:+ text) :
    Reads text (since text (Text.offsetOf text cs)) rest (.ok (before, rest)) := by
  subst heq
  refine (reads_get rest).bind ?_
  rw [Text.sliceBytes?_offsetOf h]
  exact reads_pure before rest

theorem reads_peekAt (h : cs <:+ text) (n : Nat) : Reads text (peekAt text n) cs (.ok (cs[n]?, cs)) :=
  (reads_rest h).bind (reads_pure _ cs)

theorem reads_advance (h : c :: cs <:+ text) : Reads text (advance text) (c :: cs) (.ok (some c, cs)) := by
  have hmove : Reads text (modify (· + c.utf8Size)) (c :: cs) (.ok ((), cs)) := reads_modify [c] h
  exact (reads_peekAt h 0).bind (hmove.bind (reads_pure _ cs))

theorem reads_advance_nil : Reads text (advance text) [] (.ok (none, [])) :=
  (reads_peekAt (List.nil_suffix) 0).bind (reads_pure _ [])

theorem reads_skipIf (h : c :: cs <:+ text) (hc : p c = true) :
    Reads text (skipIf text p) (c :: cs) (.ok (true, cs)) := by
  refine (reads_peekAt h 0).bind ?_
  simp only [List.getElem?_cons_zero, if_pos hc]
  exact (reads_advance h).bind (reads_pure _ cs)

theorem reads_skipIf_false (h : cs <:+ text) (hcs : ∀ c ∈ cs.head?, p c = false) :
    Reads text (skipIf text p) cs (.ok (false, cs)) := by
  refine (reads_peekAt h 0).bind ?_
  cases cs with
  | nil => exact reads_pure _ _
  | cons c cs =>
    simp only [List.getElem?_cons_zero, hcs c rfl]
    exact reads_pure _ _

/-! ### Loops -/

/-- A round of a loop that is to read `x` in front of `cs`.  Either it is the last one, or it moves on, and the
loop is to read the same in front of what is left. -/
inductive Progress {γ : Type} (text : List Char) (spec : γ → List Char → Except Stop (γ × List Char))
    (round : Cursor (ForInStep γ)) (cs : List Char) : Except Stop (γ × List Char) → Prop where
  | last {x : Except Stop (γ × List Char)} (h : Reads text round cs (x.map fun r => (.done r.1, r.2))) :
    Progress text spec round cs x
  | next {b : γ} {rest : List Char} (hshorter : rest.length < cs.length)
    (h : Reads text round cs (.ok (.yield b, rest))) : Progress text spec round cs (spec b rest)

section Loops

variable {γ : Type} {round : γ → Cursor (ForInStep γ)} {spec : γ → List Char → Except Stop (γ × List Char)}

theorem reads_rounds (hround : ∀ b cs, cs <:+ text → Progress text spec (round b) cs (spec b cs)) {n : Nat}
    (hlength : cs.length < n) (h : cs <:+ text) (b : γ) : Reads text (rounds round n b) cs (spec b cs) := by
  induction n generalizing cs b with
  | zero => exact absurd hlength (Nat.not_lt_zero _)
  | succ n ih =>
    have hprogress := hround b cs h
    generalize spec b cs = x at hprogress ⊢
    cases hprogress with
    | last hlast =>
      match x, hlast with
      | .ok (b', rest), hlast => exact hlast.bind (reads_pure _ _)
      | .error s, hlast => exact hlast.bind_error
    | next hshorter hnext => exact hnext.bind (ih (by omega) (hnext.suffix h) _)

/-- A loop comes to its end if each round that is not the last one moves on. -/
theorem reads_loop (spec : γ → List Char → Except Stop (γ × List Char))
    (hround : ∀ b cs, cs <:+ text → Progress text spec (round b) cs (spec b cs)) (h : cs <:+ text) (b : γ) :
    Reads text (loop text round b) cs (spec b cs) :=
  -- a round is left for the end of the text
  reads_rounds hround (Nat.lt_succ_of_le h.length_le) h b

end Loops

theorem reads_skipWhile (h : cs <:+ text) : Reads text (skipWhile text p) cs (.ok ((), cs.dropWhile p)) := by
  refine reads_loop (fun _ cs => .ok ((), cs.dropWhile p)) (fun _ cs hcs => ?_) h ()
  cases cs with
  | nil => exact .last ((reads_skipIf_false hcs (by simp)).bind (reads_pure _ _))
  | cons c cs =>
    cases hc : p c with
    | true =>
      rw [List.dropWhile_cons_of_pos hc]
      exact .next (Nat.lt_succ_self _) ((reads_skipIf hcs hc).bind (reads_pure _ _))
    | false =>
      rw [List.dropWhile_cons_of_neg (by simp [hc])]
      exact .last ((reads_skipIf_false hcs (by simpa using hc)).bind (reads_pure _ _))

/-! ### Trivia -/

theorem reads_skipLine (h : cs <:+ text) : Reads text (skipLine text) cs (.ok ((), Text.afterLine cs)) := by
  refine reads_loop (fun _ cs => .ok ((), Text.afterLine cs)) (fun _ cs hcs => ?_) h ()
  cases cs with
  | nil => exact .last (reads_advance_nil.bind (reads_pure _ _))
  | cons c cs =>
    rw [Text.afterLine]
    by_cases hc : c = '\n'
    · rw [if_pos hc]
      refine .last ((reads_advance hcs).bind ?_)
      simp only [if_pos hc]
      exact reads_pure _ _
    · rw [if_neg hc]
      refine .next (b := ()) (Nat.lt_succ_self _) ((reads_advance hcs).bind ?_)
      simp only [if_neg hc]
      exact reads_pure _ _

/-- The end of a block comment is found where it stands. -/
theorem findBytes?_blockEnd (cs : List Char) :
    (Text.afterBlock cs = none ∧ Text.findBytes? ['*', '/'] cs = none) ∨
    ∃ body rest, cs = body ++ '*' :: '/' :: rest ∧ Text.afterBlock cs = some rest ∧
      Text.findBytes? ['*', '/'] cs = some (Text.byteCount body) := by
  fun_induction Text.afterBlock cs with
  | case1 => exact .inl ⟨rfl, rfl⟩
  | case2 cs => exact .inr ⟨[], cs, rfl, rfl, by simp [Text.findBytes?]⟩
  | case3 c cs hopen ih =>
    have hother : ¬ ['*', '/'] <+: c :: cs := by
      rintro ⟨rest, heq⟩
      obtain ⟨hc, hcs⟩ := List.cons.inj heq
      exact hopen rest hc.symm hcs.symm
    rw [Text.findBytes?, if_neg hother]
    rcases ih with ⟨hnone, hfind⟩ | ⟨body, rest, rfl, hafter, hfind⟩
    · exact .inl ⟨hnone, by rw [hfind]; rfl⟩
    · exact .inr ⟨c :: body, rest, rfl, hafter, by rw [hfind]; rfl⟩

/-- What a block comment amounts to: it has to be closed. -/
def pastBlock (cs : List Char) : Except Stop (Unit × List Char) :=
  match Text.afterBlock cs with
  | some rest => .ok ((), rest)
  | none => .error ⟨.unexpectedEnd, '/' :: '*' :: cs⟩

theorem reads_skipBlock (h : '/' :: '*' :: cs <:+ text) :
    Reads text (skipBlock text) ('/' :: '*' :: cs) (pastBlock cs) := by
  have hcs : cs <:+ '/' :: '*' :: cs := List.suffix_append ['/', '*'] cs
  -- both characters of the opening take one byte
  have hopening : Text.offsetOf text ('/' :: '*' :: cs) + 2 = Text.offsetOf text cs :=
    Text.offsetOf_add ['/', '*'] h
  refine (reads_get _).bind ?_
  rw [hopening]
  refine (reads_set hcs).bind ((reads_rest (hcs.trans h)).bind ?_)
  unfold pastBlock
  rcases findBytes?_blockEnd cs with ⟨hafter, hfind⟩ | ⟨body, rest, rfl, hafter, hfind⟩
  · simp only [hafter, hfind]
    exact reads_throw h
  · simp only [hafter, hfind]
    have hbody : (body ++ ['*', '/']) ++ rest <:+ text := by simpa using hcs.trans h
    have hmove := reads_modify _ hbody
    rwa [Text.byteCount_append, List.append_assoc] at hmove

/-- What trivia amount to: a block comment that is never closed is a fault. -/
def pastTrivia (cs : List Char) : Except Stop (Unit × List Char) :=
  match Text.afterTrivia cs with
  | '/' :: '*' :: rest => .error ⟨.unexpectedEnd, '/' :: '*' :: rest⟩
  | rest => .ok ((), rest)

theorem pastTrivia_congr (h : Text.afterTrivia cs = Text.afterTrivia rest) : pastTrivia cs = pastTrivia rest := by
  rw [pastTrivia, pastTrivia, h]

theorem pastTrivia_unclosed (h : Text.afterBlock cs = none) :
    pastTrivia ('/' :: '*' :: cs) = .error ⟨.unexpectedEnd, '/' :: '*' :: cs⟩ := by
  rw [pastTrivia, Text.afterTrivia_unclosed h]
  rfl

/-- Neither a blank nor a comment starts with the first character. -/
theorem pastTrivia_cons (hblank : Text.isBlank c = false)
    (hslash : c = '/' → ∀ d ∈ cs.head?, d ≠ '/' ∧ d ≠ '*') :
    pastTrivia (c :: cs) = .ok ((), c :: cs) := by
  rw [pastTrivia, Text.afterTrivia_cons hblank hslash]
  split
  · next heq =>
    obtain ⟨rfl, rfl⟩ := List.cons.inj heq
    exact absurd rfl (hslash rfl '*' rfl).2
  · rfl

theorem reads_skipPiece {x : Except Stop (ForInStep Unit × List Char)} (h : cs <:+ text)
    (hx : Reads text (skipPieceOf text cs[0]? cs[1]?) cs x) : Reads text (skipPiece text) cs x :=
  (reads_peekAt h 0).bind ((reads_peekAt h 1).bind hx)

theorem progress_skipPiece (h : cs <:+ text) :
    Progress text (fun _ => pastTrivia) (skipPiece text) cs (pastTrivia cs) := by
  fun_cases Text.afterTrivia cs with
  | case1 =>
    have hpast : pastTrivia [] = .ok ((), []) := by rw [pastTrivia, Text.afterTrivia_nil]
    rw [hpast]
    exact .last (reads_skipPiece h (reads_pure _ _))
  | case2 cs =>
    have hline := reads_skipLine h
    rw [pastTrivia_congr (Text.afterTrivia_line cs)]
    refine .next ?_ (reads_skipPiece h (hline.bind (reads_pure _ _)))
    exact Nat.lt_succ_of_lt (Nat.lt_succ_of_le (Text.afterLine_length_le cs))
  | case3 cs rest hafter =>
    have hblock := reads_skipBlock h
    rw [pastBlock, hafter] at hblock
    rw [pastTrivia_congr (Text.afterTrivia_block hafter)]
    refine .next ?_ (reads_skipPiece h (hblock.bind (reads_pure _ _)))
    exact Nat.lt_succ_of_lt (Nat.lt_succ_of_le (Text.afterBlock_length_le hafter))
  | case4 cs hafter =>
    have hblock := reads_skipBlock h
    rw [pastBlock, hafter] at hblock
    rw [pastTrivia_unclosed hafter]
    exact .last (reads_skipPiece h hblock.bind_error)
  | case5 c cs hline hblock hblank =>
    rw [pastTrivia_congr (Text.afterTrivia_blank hblank cs)]
    refine .next (b := ()) (Nat.lt_succ_self _) (reads_skipPiece h ?_)
    simp only [skipPieceOf, List.getElem?_cons_zero, Option.any_some, if_pos hblank]
    exact (reads_advance h).bind (reads_pure _ _)
  | case6 c cs hline hblock hblank =>
    have hslash : c = '/' → ∀ d ∈ cs.head?, d ≠ '/' ∧ d ≠ '*' := by
      intro hc d hd
      obtain ⟨rest, rfl⟩ := List.head?_eq_some_iff.1 hd
      exact ⟨fun heq => hline rest hc (by rw [heq]), fun heq => hblock rest hc (by rw [heq])⟩
    rw [pastTrivia_cons (by simpa using hblank) hslash]
    refine .last (reads_skipPiece h ?_)
    have hnoLine : ¬ (c = '/' ∧ cs.head? = some '/') := fun ⟨hc, hcs⟩ => (hslash hc '/' hcs).1 rfl
    have hnoBlock : ¬ (c = '/' ∧ cs.head? = some '*') := fun ⟨hc, hcs⟩ => (hslash hc '*' hcs).2 rfl
    simp only [skipPieceOf, ← List.head?_eq_getElem?, List.getElem?_cons_succ, List.head?_cons,
      Option.some.injEq, Option.any_some, if_neg hblank, if_neg hnoLine, if_neg hnoBlock]
    exact reads_pure _ _

theorem reads_skipTrivia (h : cs <:+ text) : Reads text (skipTrivia text) cs (pastTrivia cs) :=
  reads_loop (fun _ => pastTrivia) (fun _ _ hcs => progress_skipPiece hcs) h ()

end Cursor

end ScriptBundle
