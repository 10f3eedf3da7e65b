import ScriptBundle.Text.Trivia

/-!
# What is skipped between tokens

Trivia is made of blanks, of comments up to the end of their line, and of comments up to the first
closing mark.  It is skipped whatever follows it.  Only a comment in the last line may go up to the
end of the text.

## Main definitions

* `Trivia`: blanks and comments that are closed.
* `TriviaOnly`: blanks and comments up to the end of a text.

## Main results

* `Trivia.afterTrivia_append`: trivia is skipped, whatever follows it.
* `exists_trivia`: what is skipped at the front of a text is trivia.
* `afterTrivia_eq_nil_iff`: **a text is skipped as a whole iff it is trivia up to its end.**
-/

namespace ScriptBundle.Text

/-- Blanks, comments with the end of their line, and block comments with their closing mark. -/
inductive Trivia : List Char → Prop where
  | nil : Trivia []
  | blank {c : Char} {cs : List Char} (hc : isBlank c = true) (h : Trivia cs) : Trivia (c :: cs)
  | line {body cs : List Char} (hbody : '\n' ∉ body) (h : Trivia cs) :
    Trivia ('/' :: '/' :: (body ++ '\n' :: cs))
  | block {body cs : List Char} (hbody : ¬ ['*', '/'] <:+: body) (h : Trivia cs) :
    Trivia ('/' :: '*' :: (body ++ '*' :: '/' :: cs))

/-- Trivia up to the end of a text, where a comment needs no end of its line. -/
def TriviaOnly (cs : List Char) : Prop :=
  ∃ s rest, Trivia s ∧ cs = s ++ rest ∧ (rest = [] ∨ ∃ body, '\n' ∉ body ∧ rest = '/' :: '/' :: body)

variable {c : Char} {cs body rest s : List Char}

/-! ### Comments -/

/-- A line is skipped up to where it ends. -/
theorem afterLine_append (h : '\n' ∉ body) (rest : List Char) : afterLine (body ++ rest) = afterLine rest := by
  induction body with
  | nil => rfl
  | cons c body ih =>
    have hc : c ≠ '\n' := fun hc => h (hc ▸ List.mem_cons_self)
    rw [List.cons_append, afterLine, if_neg hc]
    exact ih fun hmem => h (List.mem_cons_of_mem c hmem)

@[simp] theorem afterLine_lineFeed (rest : List Char) : afterLine ('\n' :: rest) = rest := by
  rw [afterLine, if_pos rfl]

theorem afterLine_of_notMem (h : '\n' ∉ cs) : afterLine cs = [] := by
  rw [← List.append_nil cs, afterLine_append h, afterLine]

/-- What is skipped is the rest of a line. -/
theorem exists_line (h : '\n' ∈ cs) : ∃ body, '\n' ∉ body ∧ cs = body ++ '\n' :: afterLine cs := by
  induction cs with
  | nil => cases h
  | cons c cs ih =>
    rw [afterLine]
    by_cases hc : c = '\n'
    · rw [if_pos hc, hc]
      exact ⟨[], List.not_mem_nil, rfl⟩
    · have hmem : '\n' ∈ cs := (List.mem_cons.1 h).resolve_left fun heq => hc heq.symm
      obtain ⟨body, hbody, hcs⟩ := ih hmem
      rw [if_neg hc]
      refine ⟨c :: body, ?_, congrArg (c :: ·) hcs⟩
      intro hmem
      rcases List.mem_cons.1 hmem with heq | hmem
      · exact hc heq.symm
      · exact hbody hmem

theorem afterBlock_cons (h : ∀ rest, c :: cs ≠ '*' :: '/' :: rest) : afterBlock (c :: cs) = afterBlock cs := by
  rw [afterBlock]
  intro rest hc hcs
  exact h rest (by rw [hc, hcs])

/-- A block comment is skipped with its closing mark. -/
theorem afterBlock_append (h : ¬ ['*', '/'] <:+: body) (rest : List Char) :
    afterBlock (body ++ '*' :: '/' :: rest) = some rest := by
  induction body with
  | nil => rw [List.nil_append, afterBlock]
  | cons c body ih =>
    have hbody : ¬ ['*', '/'] <:+: body := fun hmark => h (hmark.trans (List.suffix_cons c body).isInfix)
    rw [List.cons_append, afterBlock_cons, ih hbody]
    intro rest' heq
    obtain ⟨rfl, hslash⟩ := List.cons.inj heq
    -- a closing mark at the front would have its second half in the comment, too
    cases body with
    | nil => exact absurd (List.cons.inj hslash).1 (by decide)
    | cons d body =>
      have hd : d = '/' := (List.cons.inj hslash).1
      exact h ⟨[], body, by rw [hd]; rfl⟩

/-- What is skipped is a block comment. -/
theorem exists_block (h : afterBlock cs = some rest) :
    ∃ body, ¬ ['*', '/'] <:+: body ∧ cs = body ++ '*' :: '/' :: rest := by
  fun_induction afterBlock cs with
  | case1 => cases h
  | case2 cs =>
    obtain rfl := Option.some.inj h
    exact ⟨[], by simp, rfl⟩
  | case3 c cs hclose ih =>
    obtain ⟨body, hbody, rfl⟩ := ih h
    refine ⟨c :: body, ?_, rfl⟩
    intro hmark
    rcases List.infix_cons_iff.1 hmark with hfirst | hmark
    · obtain ⟨rest', hrest'⟩ := hfirst
      obtain ⟨rfl, rfl⟩ := List.cons.inj hrest'
      exact hclose _ rfl rfl
    · exact hbody hmark

/-! ### Trivia -/

@[simp] theorem afterTrivia_nil : afterTrivia [] = [] := by
  rw [afterTrivia.eq_def]

theorem afterTrivia_line (cs : List Char) : afterTrivia ('/' :: '/' :: cs) = afterTrivia (afterLine cs) := by
  rw [afterTrivia.eq_def]
  rfl

/-- A block comment is skipped with its closing mark.  Without one it is not skipped. -/
theorem afterTrivia_opening (cs : List Char) :
    afterTrivia ('/' :: '*' :: cs) = (afterBlock cs).elim ('/' :: '*' :: cs) afterTrivia := by
  rw [afterTrivia]
  split
  · next hclosed => rw [hclosed, Option.elim_some]
  · next hopen => rw [hopen, Option.elim_none]

theorem afterTrivia_block (h : afterBlock cs = some rest) :
    afterTrivia ('/' :: '*' :: cs) = afterTrivia rest := by
  rw [afterTrivia_opening, h, Option.elim_some]

theorem afterTrivia_unclosed (h : afterBlock cs = none) :
    afterTrivia ('/' :: '*' :: cs) = '/' :: '*' :: cs := by
  rw [afterTrivia_opening, h, Option.elim_none]

/-- Where no comment starts, a blank is skipped and nothing else. -/
theorem afterTrivia_uncommented (hslash : c = '/' → ∀ d ∈ cs.head?, d ≠ '/' ∧ d ≠ '*') :
    afterTrivia (c :: cs) = if isBlank c then afterTrivia cs else c :: cs := by
  rw [afterTrivia]
  · rintro rest rfl rfl
    exact absurd rfl (hslash rfl '/' rfl).1
  · rintro rest rfl rfl
    exact absurd rfl (hslash rfl '*' rfl).2

theorem afterTrivia_blank (h : isBlank c = true) (cs : List Char) :
    afterTrivia (c :: cs) = afterTrivia cs := by
  rw [afterTrivia_uncommented, if_pos h]
  rintro rfl
  cases h

/-- Nothing is skipped in front of a character with which neither a blank nor a comment starts. -/
theorem afterTrivia_cons (hblank : isBlank c = false)
    (hslash : c = '/' → ∀ d ∈ cs.head?, d ≠ '/' ∧ d ≠ '*') :
    afterTrivia (c :: cs) = c :: cs := by
  rw [afterTrivia_uncommented hslash, hblank, if_neg Bool.false_ne_true]

/-- Trivia is skipped, whatever follows it. -/
theorem Trivia.afterTrivia_append (h : Trivia s) (rest : List Char) :
    afterTrivia (s ++ rest) = afterTrivia rest := by
  induction h with
  | nil => rfl
  | blank hc _ ih => rw [List.cons_append, afterTrivia_blank hc, ih]
  | @line body cs hbody _ ih =>
    rw [List.cons_append, List.cons_append, List.append_assoc, List.cons_append, afterTrivia_line,
      afterLine_append hbody, afterLine_lineFeed, ih]
  | @block body cs hbody _ ih =>
    rw [List.cons_append, List.cons_append, List.append_assoc, List.cons_append, List.cons_append,
      afterTrivia_block (afterBlock_append hbody _), ih]

/-- What is skipped at the front of a text is trivia, and perhaps a comment in the last line. -/
theorem exists_trivia (cs : List Char) :
    ∃ s rest, Trivia s ∧ cs = s ++ rest ∧ (afterTrivia cs = rest ∨
      afterTrivia cs = [] ∧ ∃ body, '\n' ∉ body ∧ rest = '/' :: '/' :: body) := by
  fun_induction afterTrivia cs with
  | case1 => exact ⟨[], [], .nil, rfl, .inl rfl⟩
  | case2 cs ih =>
    by_cases hend : '\n' ∈ cs
    · obtain ⟨body, hbody, hcs⟩ := exists_line hend
      obtain ⟨s, rest, hs, hafter, hrest⟩ := ih
      refine ⟨_, rest, .line hbody hs, ?_, hrest⟩
      rw [List.cons_append, List.cons_append, List.append_assoc, List.cons_append, ← hafter, ← hcs]
    · refine ⟨[], _, .nil, rfl, .inr ⟨?_, cs, hend, rfl⟩⟩
      rw [afterLine_of_notMem hend, afterTrivia_nil]
  | case3 cs after h ih =>
    obtain ⟨body, hbody, hcs⟩ := exists_block h
    obtain ⟨s, rest, hs, hafter, hrest⟩ := ih
    refine ⟨_, rest, .block hbody hs, ?_, hrest⟩
    rw [List.cons_append, List.cons_append, List.append_assoc, List.cons_append, List.cons_append,
      ← hafter, ← hcs]
  | case4 cs => exact ⟨[], _, .nil, rfl, .inl rfl⟩
  | case5 c cs _ _ hblank ih =>
    obtain ⟨s, rest, hs, hcs, hrest⟩ := ih
    exact ⟨c :: s, rest, .blank hblank hs, congrArg (c :: ·) hcs, hrest⟩
  | case6 c cs => exact ⟨[], _, .nil, rfl, .inl rfl⟩

/-- **A text is skipped as a whole iff it is trivia up to its end.** -/
theorem afterTrivia_eq_nil_iff : afterTrivia cs = [] ↔ TriviaOnly cs := by
  constructor
  · intro h
    obtain ⟨s, rest, hs, hcs, hrest | ⟨_, hlast⟩⟩ := exists_trivia cs
    · exact ⟨s, rest, hs, hcs, .inl (hrest.symm.trans h)⟩
    · exact ⟨s, rest, hs, hcs, .inr hlast⟩
  · rintro ⟨s, rest, hs, rfl, rfl | ⟨body, hbody, rfl⟩⟩
    · rw [hs.afterTrivia_append, afterTrivia_nil]
    · rw [hs.afterTrivia_append, afterTrivia_line, afterLine_of_notMem hbody, afterTrivia_nil]

end ScriptBundle.Text
