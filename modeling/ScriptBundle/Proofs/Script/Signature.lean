import Mathlib.Data.List.Basic
import ScriptBundle.Proofs.Text.Trimmed
import ScriptBundle.Proofs.Text.Trivia
import ScriptBundle.Script.Manifest

/-!
# Which scripts have the wrapper of a self-registering script

The parameters of a wrapper function may have default values, and a default value may be a call.  But the
parameters are read up to the first closing parenthesis.  So the first parameter that holds a call is cut
off there, and what counts as the last parameter is what stands behind the last comma so far.

## Main definitions

* `Nested`: a text whose parentheses are balanced.
* `IsParameter`: such a text with commas only between its parentheses.
* `CutShort`: the first parameter with parentheses has a comma and then the marker between them.

## Main results

* `lastParameter?_leading`: the last parameter is the one behind the last comma.
* `isSelfRegistering_signature_iff`: **a script is self-registering iff its wrapper has two parameters or more,
  none with parentheses, of which the last is the marker, or if the parameters are cut short behind a marker.**
-/

namespace ScriptBundle.Script

/-- A text whose parentheses are balanced. -/
inductive Nested : List Char → Prop where
  | nil : Nested []
  | char {c : Char} {cs : List Char} (hopen : c ≠ '(') (hclose : c ≠ ')') (h : Nested cs) : Nested (c :: cs)
  | group {inner cs : List Char} (hinner : Nested inner) (h : Nested cs) :
    Nested ('(' :: (inner ++ ')' :: cs))

/-- A text whose parentheses are balanced, with commas only between them. -/
inductive IsParameter : List Char → Prop where
  | nil : IsParameter []
  | char {c : Char} {cs : List Char} (hopen : c ≠ '(') (hclose : c ≠ ')') (hcomma : c ≠ ',')
    (h : IsParameter cs) : IsParameter (c :: cs)
  | group {inner cs : List Char} (hinner : Nested inner) (h : IsParameter cs) :
    IsParameter ('(' :: (inner ++ ')' :: cs))

/-- The first parameter with parentheses has a comma in front of its first closing one, and the marker
between the two. -/
def CutShort (ps : List (List Char)) (marker : String) : Prop :=
  ∃ before head last rest after, ps = before ++ (head ++ ',' :: (last ++ ')' :: rest)) :: after ∧
    (∀ p ∈ before, '(' ∉ p) ∧ ')' ∉ head ∧ ')' ∉ last ∧ ',' ∉ last ∧ Text.trim last = marker.toList

variable {p front head last rest inner trivia following : List Char} {ps before after : List (List Char)}
  {marker : String}

/-! ### Parameters -/

theorem Nested.of_plain (h : '(' ∉ p ∧ ')' ∉ p) : Nested p := by
  induction p with
  | nil => exact .nil
  | cons c cs ih =>
    obtain ⟨hopen, hclose⟩ := h
    exact .char (List.ne_of_not_mem_cons hopen).symm (List.ne_of_not_mem_cons hclose).symm
      (ih ⟨List.not_mem_of_not_mem_cons hopen, List.not_mem_of_not_mem_cons hclose⟩)

/-- Characters other than parentheses and commas may stand in front of a parameter. -/
theorem IsParameter.append (h : IsParameter p) (hfront : '(' ∉ front ∧ ')' ∉ front ∧ ',' ∉ front) :
    IsParameter (front ++ p) := by
  induction front with
  | nil => exact h
  | cons c cs ih =>
    obtain ⟨hopen, hclose, hcomma⟩ := hfront
    exact .char (List.ne_of_not_mem_cons hopen).symm (List.ne_of_not_mem_cons hclose).symm
      (List.ne_of_not_mem_cons hcomma).symm (ih ⟨List.not_mem_of_not_mem_cons hopen,
        List.not_mem_of_not_mem_cons hclose, List.not_mem_of_not_mem_cons hcomma⟩)

theorem IsParameter.of_plain (h : '(' ∉ p ∧ ')' ∉ p ∧ ',' ∉ p) : IsParameter p := by
  have hp := IsParameter.nil.append h
  rwa [List.append_nil] at hp

/-- A parameter without parentheses has no commas, either. -/
theorem IsParameter.plain (h : IsParameter p) (hopen : '(' ∉ p) : ')' ∉ p ∧ ',' ∉ p := by
  induction h with
  | nil => exact ⟨List.not_mem_nil, List.not_mem_nil⟩
  | char _ hclose hcomma _ ih =>
    obtain ⟨hclose', hcomma'⟩ := ih fun hmem => hopen (List.mem_cons_of_mem _ hmem)
    exact ⟨List.not_mem_cons_of_ne_of_not_mem hclose.symm hclose',
      List.not_mem_cons_of_ne_of_not_mem hcomma.symm hcomma'⟩
  | group _ _ _ => exact absurd List.mem_cons_self hopen

/-- The first closing parenthesis of a parameter stands behind an opening one. -/
theorem IsParameter.exists_close (h : IsParameter p) (hopen : '(' ∈ p) :
    ∃ front rest, p = front ++ ')' :: rest ∧ ')' ∉ front ∧ '(' ∈ front := by
  induction h with
  | nil => cases hopen
  | @char c cs hne hclose _ _ ih =>
    have hmem : '(' ∈ cs := (List.mem_cons.1 hopen).resolve_left hne.symm
    obtain ⟨front, rest, rfl, hfront, hmem⟩ := ih hmem
    exact ⟨c :: front, rest, rfl, List.not_mem_cons_of_ne_of_not_mem hclose.symm hfront,
      List.mem_cons_of_mem c hmem⟩
  | @group inner cs _ _ _ =>
    have hmem : ')' ∈ inner ++ ')' :: cs := List.mem_append_right _ List.mem_cons_self
    obtain ⟨front, rest, heq, hfront⟩ := List.eq_append_cons_of_mem hmem
    exact ⟨'(' :: front, rest, congrArg ('(' :: ·) heq,
      List.not_mem_cons_of_ne_of_not_mem (by decide) hfront, List.mem_cons_self⟩

/-! ### Parameters one behind the other -/

/-- Parameters in front of another one, each with its comma. -/
def leading (before : List (List Char)) : List Char := before.flatMap (· ++ [','])

theorem leading_concat : leading (before ++ [p]) = leading before ++ (p ++ [',']) := by
  simp [leading]

/-- The text of a list of parameters, seen from one of them. -/
theorem intercalate_cut :
    [','].intercalate (before ++ p :: after) = leading before ++ (p ++ after.flatMap (',' :: ·)) := by
  induction before with
  | nil =>
    induction after generalizing p with
    | nil => simp [leading]
    | cons q after ih =>
      have hrest := ih (p := q)
      rw [List.nil_append] at hrest ⊢
      rw [List.intercalate_cons_of_ne_nil (List.cons_ne_nil q after), hrest]
      simp [leading]
  | cons q before ih =>
    rw [List.cons_append, List.intercalate_cons_of_ne_nil (by simp), ih]
    simp [leading]

theorem intercalate_concat : [','].intercalate (before ++ [p]) = leading before ++ p := by
  rw [intercalate_cut, List.flatMap_nil, List.append_nil]

theorem notMem_leading (h : ∀ p ∈ before, ')' ∉ p) : ')' ∉ leading before := by
  intro hmem
  obtain ⟨p, hp, hmem⟩ := List.mem_flatMap.1 hmem
  rcases List.mem_append.1 hmem with hmem | hmem
  · exact h p hp hmem
  · exact absurd (List.mem_singleton.1 hmem) (by decide)

/-! ### The last parameter -/

theorem exists_lastComma (h : ',' ∈ p) : ∃ head last, p = head ++ ',' :: last ∧ ',' ∉ last := by
  obtain ⟨last, head, heq, hlast⟩ := List.eq_append_cons_of_mem (List.mem_reverse.2 h)
  refine ⟨head.reverse, last.reverse, ?_, by simpa using hlast⟩
  rw [← List.reverse_reverse p, heq]
  simp

theorem lastParameter?_append (hhead : head ≠ []) (hlast : ',' ∉ last) :
    lastParameter? (head ++ ',' :: last) = some last := by
  have hpassed : ',' ∉ last.reverse := by simpa using hlast
  have hreverse : (head ++ ',' :: last).reverse = last.reverse ++ ',' :: head.reverse := by simp
  obtain ⟨c, cs, hcons⟩ := List.exists_cons_of_ne_nil (List.reverse_ne_nil_iff.2 hhead)
  rw [lastParameter?, hreverse, Text.dropWhile_bne hpassed, Text.takeWhile_bne hpassed, hcons]
  simp

theorem lastParameter?_of_notMem (h : ',' ∉ p) : lastParameter? p = none := by
  rw [lastParameter?, Text.dropWhile_bne_eq_nil (by simpa using h)]

/-- The last parameter is the one behind the last comma; it does not count if it is the only one. -/
theorem lastParameter?_leading (h : ',' ∉ p) :
    lastParameter? ('(' :: (leading before ++ p)) = if before = [] then none else some p := by
  rcases List.eq_nil_or_concat before with rfl | ⟨init, q, rfl⟩
  · exact lastParameter?_of_notMem (List.not_mem_cons_of_ne_of_not_mem (by decide) h)
  · rw [List.concat_eq_append, leading_concat, if_neg (by simp)]
    have hcut : '(' :: (leading init ++ (q ++ [',']) ++ p) = ('(' :: (leading init ++ q)) ++ ',' :: p := by simp
    rw [hcut]
    exact lastParameter?_append (List.cons_ne_nil _ _) h

/-- What stands between the first parenthesis of a script and the first closing one is its group. -/
theorem parameterGroup?_of_front (htrivia : Text.Trivia trivia) (hfront : ')' ∉ front) :
    parameterGroup? (trivia ++ '(' :: (front ++ ')' :: rest)) = some front := by
  have hafter : Text.afterTrivia ('(' :: (front ++ ')' :: rest)) = '(' :: (front ++ ')' :: rest) :=
    Text.afterTrivia_cons (by decide) (fun hc => absurd hc (by decide))
  rw [parameterGroup?, htrivia.afterTrivia_append, hafter]
  simp [Text.takeWhile_bne hfront]

theorem isSelfRegistering_of_front (htrivia : Text.Trivia trivia) (hfront : ')' ∉ front) :
    isSelfRegistering (trivia ++ '(' :: (front ++ ')' :: rest)) marker = true ↔
      ∃ last, lastParameter? front = some last ∧ Text.trim last = marker.toList := by
  rw [isSelfRegistering, parameterGroup?_of_front htrivia hfront, Option.bind_some]
  cases lastParameter? front with
  | none => simp
  | some last => simp

/-! ### Wrappers -/

/-- A wrapper whose parameters are read up to `p`, of which only the front is read. -/
theorem isSelfRegistering_leading (htrivia : Text.Trivia trivia) (hbefore : ∀ q ∈ before, ')' ∉ q)
    (hclose : ')' ∉ p) (hcomma : ',' ∉ p) (rest : List Char) (marker : String) :
    isSelfRegistering (trivia ++ '(' :: ('(' :: (leading before ++ p) ++ ')' :: rest)) marker = true ↔
      before ≠ [] ∧ Text.trim p = marker.toList := by
  have hfront : ')' ∉ '(' :: (leading before ++ p) := by
    simp [notMem_leading hbefore, hclose]
  rw [isSelfRegistering_of_front htrivia hfront, lastParameter?_leading hcomma]
  by_cases hnil : before = []
  · simp [hnil]
  · simp [hnil]

/-- Without parentheses among the parameters the last one counts. -/
theorem isSelfRegistering_of_plain (htrivia : Text.Trivia trivia) (hps : ∀ p ∈ ps, IsParameter p)
    (hplain : ∀ p ∈ ps, '(' ∉ p) :
    isSelfRegistering (trivia ++ '(' :: '(' :: ([','].intercalate ps ++ ')' :: following)) marker = true ↔
      2 ≤ ps.length ∧ ∃ last ∈ ps.getLast?, Text.trim last = marker.toList := by
  have hpure (p) (hp : p ∈ ps) : ')' ∉ p ∧ ',' ∉ p := (hps p hp).plain (hplain p hp)
  rcases List.eq_nil_or_concat ps with rfl | ⟨init, last, rfl⟩
  · have hempty : ∀ q ∈ ([] : List (List Char)), ')' ∉ q := nofun
    have hnone := isSelfRegistering_leading htrivia hempty List.not_mem_nil List.not_mem_nil following marker
    exact hnone.trans (by simp)
  · rw [List.concat_eq_append] at hpure ⊢
    have hlast := hpure last (by simp)
    have hinit : ∀ q ∈ init, ')' ∉ q := fun q hq => (hpure q (by simp [hq])).1
    rw [intercalate_concat]
    refine (isSelfRegistering_leading htrivia hinit hlast.1 hlast.2 following marker).trans ?_
    have hlength : init ≠ [] ↔ 2 ≤ (init ++ [last]).length := by
      cases init <;> simp
    rw [hlength, List.getLast?_concat]
    simp

/-- A wrapper whose parameters are cut short behind a marker counts as one of a self-registering script. -/
theorem CutShort.isSelfRegistering (h : CutShort ps marker) (htrivia : Text.Trivia trivia)
    (hps : ∀ p ∈ ps, IsParameter p) :
    isSelfRegistering (trivia ++ '(' :: '(' :: ([','].intercalate ps ++ ')' :: following)) marker = true := by
  obtain ⟨before, head, last, rest, after, rfl, hbefore, hhead, hlast, hcomma, hmarker⟩ := h
  have hclose : ∀ q ∈ before ++ [head], ')' ∉ q := by
    intro q hq
    rcases List.mem_append.1 hq with hq | hq
    · exact ((hps q (List.mem_append_left _ hq)).plain (hbefore q hq)).1
    · rwa [List.mem_singleton.1 hq]
  have hread := (isSelfRegistering_leading htrivia hclose hlast hcomma
    (rest ++ after.flatMap (',' :: ·) ++ ')' :: following) marker).2 ⟨by simp, hmarker⟩
  rw [leading_concat] at hread
  rw [intercalate_cut]
  simpa using hread

/-- Where a parameter with parentheses cuts the others off, only a marker behind a comma in it counts. -/
theorem cutShort_of_isSelfRegistering (htrivia : Text.Trivia trivia) (hps : ∀ p ∈ ps, IsParameter p)
    (hmarker : '(' ∉ marker.toList) (hopen : ¬ ∀ p ∈ ps, '(' ∉ p)
    (h : isSelfRegistering (trivia ++ '(' :: '(' :: ([','].intercalate ps ++ ')' :: following)) marker = true) :
    CutShort ps marker := by
  -- the first parameter with parentheses
  have hsome : (ps.find? fun p => decide ('(' ∈ p)).isSome = true := by
    rw [List.find?_isSome]
    simpa using hopen
  obtain ⟨p, hp⟩ := Option.isSome_iff_exists.1 hsome
  obtain ⟨hmem, before, after, rfl, hbefore⟩ := List.find?_eq_some_iff_append.1 hp
  have hplain : ∀ q ∈ before, '(' ∉ q := fun q hq => by simpa using hbefore q hq
  have hclose : ∀ q ∈ before, ')' ∉ q := fun q hq =>
    ((hps q (List.mem_append_left _ hq)).plain (hplain q hq)).1
  obtain ⟨front, rest, rfl, hfront, hmem⟩ := (hps p (by simp)).exists_close (by simpa using hmem)
  have hread : Script.isSelfRegistering (trivia ++ '(' :: ('(' :: (leading before ++ front) ++
      ')' :: (rest ++ after.flatMap (',' :: ·) ++ ')' :: following))) marker = true := by
    rw [intercalate_cut] at h
    simpa using h
  by_cases hcomma : ',' ∈ front
  · obtain ⟨head, last, rfl, hlast⟩ := exists_lastComma hcomma
    rw [List.mem_append, List.mem_cons, not_or, not_or] at hfront
    obtain ⟨hhead, -, htail⟩ := hfront
    -- what stands in front of the comma counts as one more parameter
    have hbehind : ∀ q ∈ before ++ [head], ')' ∉ q := by
      simpa [or_imp, forall_and] using ⟨hclose, hhead⟩
    have hcut : leading before ++ (head ++ ',' :: last) = leading (before ++ [head]) ++ last := by
      rw [leading_concat]
      simp
    rw [hcut] at hread
    obtain ⟨-, htrim⟩ := (isSelfRegistering_leading htrivia hbehind htail hlast _ _).1 hread
    exact ⟨before, head, last, rest, after, by simp, hplain, hhead, htail, hlast, htrim⟩
  · -- the opening parenthesis would belong to the marker
    obtain ⟨-, htrim⟩ := (isSelfRegistering_leading htrivia hclose hfront hcomma _ _).1 hread
    have hcore := (Text.trim_eq_iff.1 htrim).mem_of_mem (by decide) hmem
    exact absurd hcore hmarker

/-- **A script is self-registering iff its wrapper has at least two parameters, none with parentheses, of which
the last is the marker, or if the parameters are cut short behind a marker.** -/
theorem isSelfRegistering_signature_iff (htrivia : Text.Trivia trivia) (hps : ∀ p ∈ ps, IsParameter p)
    (hmarker : '(' ∉ marker.toList) (following : List Char) :
    isSelfRegistering (trivia ++ '(' :: '(' :: ([','].intercalate ps ++ ')' :: following)) marker = true ↔
      ((∀ p ∈ ps, '(' ∉ p) ∧ 2 ≤ ps.length ∧ ∃ last ∈ ps.getLast?, Text.trim last = marker.toList) ∨
      CutShort ps marker := by
  constructor
  · intro h
    by_cases hplain : ∀ p ∈ ps, '(' ∉ p
    · exact .inl ⟨hplain, (isSelfRegistering_of_plain htrivia hps hplain).1 h⟩
    · exact .inr (cutShort_of_isSelfRegistering htrivia hps hmarker hplain h)
  · rintro (⟨hplain, hlast⟩ | hcut)
    · exact (isSelfRegistering_of_plain htrivia hps hplain).2 hlast
    · exact hcut.isSelfRegistering htrivia hps

/-! ### Default values that are calls -/

/-- A parameter whose default value is a call that is given the marker. -/
theorem isParameter_calledDefault : IsParameter "a = f(x, Script)".toList := by
  have hcut : "a = f(x, Script)".toList = "a = f".toList ++ '(' :: ("x, Script".toList ++ ')' :: []) := by
    decide +kernel
  rw [hcut]
  exact IsParameter.append (.group (.of_plain (by decide +kernel)) .nil) (by decide +kernel)

/-- A wrapper behind a comment, and one that is cut short behind the marker in a call. -/
theorem isSelfRegistering_commented_calledDefault :
    isSelfRegistering ("// a\n".toList ++ '(' :: '(' ::
      ([','].intercalate ["id".toList, " Script ".toList] ++ ')' :: " => 0)();".toList)) "Script" = true ∧
    isSelfRegistering ([] ++ '(' :: '(' ::
      ([','].intercalate ["a = f(x, Script)".toList, " b".toList] ++ ')' :: " => 0)();".toList)) "Script" = true := by
  have hcomment : Text.Trivia "// a\n".toList := by
    have hcut : "// a\n".toList = '/' :: '/' :: (" a".toList ++ '\n' :: []) := by decide +kernel
    rw [hcut]
    exact .line (by decide +kernel) .nil
  have hplain (p) (hp : p ∈ ["id".toList, " Script ".toList, " b".toList]) : IsParameter p := by
    refine .of_plain ?_
    revert p
    decide +kernel
  constructor
  · refine (isSelfRegistering_signature_iff hcomment ?_ (by decide +kernel) _).2 (.inl ?_)
    · intro p hp
      exact hplain p (List.mem_append_left [" b".toList] hp)
    · exact ⟨by decide +kernel, by decide +kernel, _, rfl, by decide +kernel⟩
  · refine (isSelfRegistering_signature_iff .nil ?_ (by decide +kernel) _).2 (.inr ?_)
    · intro p hp
      rcases List.mem_cons.1 hp with rfl | hp
      · exact isParameter_calledDefault
      · exact hplain p (List.mem_append_right ["id".toList, " Script ".toList] hp)
    · exact ⟨[], "a = f(x".toList, " Script".toList, [], [" b".toList], by decide +kernel, by decide +kernel,
        by decide +kernel, by decide +kernel, by decide +kernel, by decide +kernel⟩

/-- It is not so that a wrapper belongs to a self-registering script just if it has two parameters or more and
the last one is the marker: the parameters may hold calls. -/
theorem calledDefault_isSelfRegistering :
    ¬ ∀ (trivia following : List Char) (ps : List (List Char)), Text.Trivia trivia →
      (∀ p ∈ ps, IsParameter p ∧ Text.trim p ≠ []) →
        (isSelfRegistering (trivia ++ '(' :: '(' :: ([','].intercalate ps ++ ')' :: following)) "Script" = true ↔
          2 ≤ ps.length ∧ ∃ last ∈ ps.getLast?, Text.trim last = "Script".toList) := by
  intro h
  have hcall : IsParameter "a = f()".toList := by
    have hcut : "a = f()".toList = "a = f".toList ++ '(' :: ([] ++ ')' :: []) := by decide +kernel
    rw [hcut]
    exact IsParameter.append (.group .nil .nil) (by decide +kernel)
  have hparams : ∀ p ∈ ["a = f()".toList, " Script".toList], IsParameter p ∧ Text.trim p ≠ [] := by
    intro p hp
    rcases List.mem_cons.1 hp with rfl | hp
    · exact ⟨hcall, by decide +kernel⟩
    · rw [List.mem_singleton.1 hp]
      exact ⟨.of_plain (by decide +kernel), by decide +kernel⟩
  have hread := (h [] " => 0)();".toList _ .nil hparams).2 ⟨by decide, _, rfl, by decide +kernel⟩
  revert hread
  decide +kernel

end ScriptBundle.Script
