import Mathlib.Data.List.Basic
import Mathlib.Data.List.TakeWhile
import ScriptBundle.Text.Trivia

/-!
# Texts without blanks at their ends, and texts cut at a character

## Main definitions

* `IsCore`: a text is another one without the blanks at its ends.

## Main results

* `takeWhile_bne`, `dropWhile_bne`: a text is cut at the first of a character.
* `trim_eq_iff`: **trimming leaves the core of a text.**
-/

namespace ScriptBundle.Text

/-- The text `core` is `cs` without the blanks at its ends. -/
structure IsCore (core cs : List Char) : Prop where
  padded : ∃ before after, cs = before ++ core ++ after ∧ (∀ b ∈ before, isBlank b = true) ∧
    ∀ a ∈ after, isBlank a = true
  first : ∀ c ∈ core.head?, isBlank c = false
  last : ∀ c ∈ core.getLast?, isBlank c = false

variable {cs core : List Char}

/-! ### The first of a character -/

theorem bne_of_mem {c : Char} (h : c ∉ cs) : ∀ d ∈ cs, (d != c) = true := by
  intro d hd
  rw [bne_iff_ne]
  rintro rfl
  exact h hd

theorem takeWhile_bne {c : Char} (h : c ∉ cs) (rest : List Char) :
    (cs ++ c :: rest).takeWhile (· != c) = cs := by
  rw [List.takeWhile_append_of_pos (bne_of_mem h), List.takeWhile_cons_of_neg (by simp), List.append_nil]

theorem dropWhile_bne {c : Char} (h : c ∉ cs) (rest : List Char) :
    (cs ++ c :: rest).dropWhile (· != c) = c :: rest := by
  rw [List.dropWhile_append_of_pos (bne_of_mem h), List.dropWhile_cons_of_neg (by simp)]

theorem dropWhile_bne_eq_nil {c : Char} (h : c ∉ cs) : cs.dropWhile (· != c) = [] :=
  List.dropWhile_eq_nil_iff.2 (bne_of_mem h)

/-! ### The core of a text -/

theorem mem_of_mem_trim {c : Char} (h : c ∈ trim cs) : c ∈ cs := by
  have hright : c ∈ trimLeft cs := by
    have hmem := (List.dropWhile_sublist isBlank).mem (List.mem_reverse.1 h)
    exact List.mem_reverse.1 hmem
  exact (List.dropWhile_sublist isBlank).mem hright

/-- The characters of a text that are no blanks are in its core. -/
theorem IsCore.mem_of_mem (h : IsCore core cs) {c : Char} (hc : isBlank c = false) (hmem : c ∈ cs) : c ∈ core := by
  obtain ⟨before, after, rfl, hbefore, hafter⟩ := h.padded
  rcases List.mem_append.1 hmem with hmem | hmem
  · refine (List.mem_append.1 hmem).resolve_left fun hmem => ?_
    rw [hbefore c hmem] at hc
    cases hc
  · rw [hafter c hmem] at hc
    cases hc

/-- Blanks at the end are trimmed away. -/
theorem trimRight_append_of_blank {after : List Char} (h : ∀ a ∈ after, isBlank a = true) :
    trimRight (cs ++ after) = trimRight cs := by
  have hreverse : ∀ a ∈ after.reverse, isBlank a = true := fun a ha => h a (List.mem_reverse.1 ha)
  rw [trimRight, List.reverse_append, List.dropWhile_append_of_pos hreverse, trimRight]

theorem trimLeft_eq_self (h : ∀ c ∈ cs.head?, isBlank c = false) : trimLeft cs = cs := by
  cases cs with
  | nil => rfl
  | cons c cs =>
    have hc : ¬ isBlank c = true := by simp [h c rfl]
    exact List.dropWhile_cons_of_neg hc

theorem trimRight_eq_self (h : ∀ c ∈ cs.getLast?, isBlank c = false) : trimRight cs = cs := by
  have hreverse : ∀ c ∈ cs.reverse.head?, isBlank c = false := by
    rwa [List.head?_reverse]
  have hleft := trimLeft_eq_self hreverse
  rw [trimLeft] at hleft
  rw [trimRight, hleft, List.reverse_reverse]

/-- What is trimmed at the front are blanks, and none is left there. -/
theorem exists_trimLeft (cs : List Char) :
    (∃ before, cs = before ++ trimLeft cs ∧ ∀ b ∈ before, isBlank b = true) ∧
      ∀ c ∈ (trimLeft cs).head?, isBlank c = false := by
  refine ⟨⟨cs.takeWhile isBlank, List.takeWhile_append_dropWhile.symm, ?_⟩, ?_⟩
  · exact fun b hb => List.mem_takeWhile_imp hb
  · intro c hc
    have hnot := List.head?_dropWhile_not isBlank cs
    have hhead : (cs.dropWhile isBlank).head? = some c := hc
    rwa [hhead] at hnot

/-- What is trimmed at the end are blanks, and none is left there. -/
theorem exists_trimRight (cs : List Char) :
    (∃ after, cs = trimRight cs ++ after ∧ ∀ a ∈ after, isBlank a = true) ∧
      ∀ c ∈ (trimRight cs).getLast?, isBlank c = false := by
  obtain ⟨⟨before, hcs, hbefore⟩, hfirst⟩ := exists_trimLeft cs.reverse
  refine ⟨⟨before.reverse, ?_, fun a ha => hbefore a (List.mem_reverse.1 ha)⟩, ?_⟩
  · have hreverse := congrArg List.reverse hcs
    rwa [List.reverse_reverse, List.reverse_append] at hreverse
  · rw [trimRight, List.getLast?_reverse]
    exact hfirst

/-- **Trimming leaves the core of a text.** -/
theorem trim_eq_iff : trim cs = core ↔ IsCore core cs := by
  constructor
  · rintro rfl
    obtain ⟨⟨before, hcs, hbefore⟩, hfirst⟩ := exists_trimLeft cs
    obtain ⟨⟨after, hleft, hafter⟩, hlast⟩ := exists_trimRight (trimLeft cs)
    refine ⟨⟨before, after, ?_, hbefore, hafter⟩, ?_, hlast⟩
    · rw [List.append_assoc, trim, ← hleft]
      exact hcs
    · intro c hc
      apply hfirst c
      rw [hleft]
      exact List.mem_head?_append_of_mem_head? hc
  · rintro ⟨⟨before, after, rfl, hbefore, hafter⟩, hfirst, hlast⟩
    rw [trim, List.append_assoc, trimLeft_append_of_blank hbefore]
    cases hcore : core with
    | nil =>
      have hnil : trimLeft after = [] := List.dropWhile_eq_nil_iff.2 hafter
      rw [List.nil_append, hnil]
      rfl
    | cons c rest =>
      rw [← hcore]
      have hhead : ∀ d ∈ (core ++ after).head?, isBlank d = false := by
        intro d hd
        rw [hcore] at hd
        exact hfirst d (by rw [hcore]; exact hd)
      rw [trimLeft_eq_self hhead, trimRight_append_of_blank hafter, trimRight_eq_self hlast]

end ScriptBundle.Text
