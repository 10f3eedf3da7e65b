import ScriptBundle.Dependency.Reference
import ScriptBundle.Proofs.Text.Trimmed

/-!
# References that are read

A reference is read or refused, unless its number would have to be cut off inside a character.  That is so
if its last character that is no digit takes several bytes.

## Main definitions

* `EndsWide`: the last character that is no digit takes several bytes.
* `IdText`: what stands in a reference behind its kind.
* `CutsCharacter`: the number of a reference would have to be cut off inside a character.

## Main results

* `parse_abandoned_iff`: **just these references are neither read nor refused.**
* `ofValue_abandoned_iff`: the same of the scalars of a literal.
-/

namespace ScriptBundle.Reference

/-- The last character that is no digit takes several bytes. -/
def EndsWide (cs : List Char) : Prop :=
  ∃ before last digits, cs = before ++ last :: digits ∧ last.isDigit = false ∧
    (∀ d ∈ digits, d.isDigit = true) ∧ 1 < last.utf8Size

/-- What stands in the text of a reference behind its kind, if it has one. -/
inductive IdText (text : String) : List Char → Prop where
  | plain (h : ':' ∉ Text.trim text.toList) : IdText text (Text.trim text.toList)
  | kinded {name rest : List Char} {kind : DependencyKind}
    (h : Text.trim text.toList = name ++ ':' :: rest) (hname : ':' ∉ name)
    (hkind : DependencyKind.ofName? (String.ofList (Text.trim name)) = some kind) :
    IdText text (Text.trim rest)

/-- The number of a reference would have to be cut off inside a character. -/
def CutsCharacter (text : String) : Prop := ∃ cs, IdText text cs ∧ EndsWide cs

variable {c : Convention} {text : String} {cs : List Char}

/-! ### Cutting the number off -/

theorem cutNumber_eq {before digits : List Char} {last : Char} (hlast : last.isDigit = false)
    (hdigits : ∀ d ∈ digits, d.isDigit = true) :
    cutNumber (before ++ last :: digits) = (before ++ [last], digits) := by
  have hreverse : (before ++ last :: digits).reverse = digits.reverse ++ last :: before.reverse := by simp
  have hmem : ∀ d ∈ digits.reverse, d.isDigit = true := by
    intro d hd
    exact hdigits d (List.mem_reverse.1 hd)
  have hnot : ¬ last.isDigit = true := by simp [hlast]
  rw [cutNumber, hreverse, List.dropWhile_append_of_pos hmem, List.takeWhile_append_of_pos hmem,
    List.dropWhile_cons_of_neg hnot, List.takeWhile_cons_of_neg hnot]
  simp

theorem cutNumber_of_digits (h : ∀ d ∈ cs, d.isDigit = true) : cutNumber cs = ([], cs) := by
  have hmem : ∀ d ∈ cs.reverse, d.isDigit = true := by
    intro d hd
    exact h d (List.mem_reverse.1 hd)
  have hdrop : cs.reverse.dropWhile Char.isDigit = [] := List.dropWhile_eq_nil_iff.2 hmem
  have htake : cs.reverse.takeWhile Char.isDigit = cs.reverse := List.takeWhile_eq_self_iff.2 hmem
  rw [cutNumber, hdrop, htake, List.reverse_reverse]
  rfl

/-- A text holds digits only, or it has a last character that is no digit. -/
theorem exists_last (cs : List Char) :
    (∀ d ∈ cs, d.isDigit = true) ∨ ∃ before last digits, cs = before ++ last :: digits ∧
      last.isDigit = false ∧ ∀ d ∈ digits, d.isDigit = true := by
  induction cs with
  | nil => exact .inl fun d hd => nomatch hd
  | cons c cs ih =>
    rcases ih with hdigits | ⟨before, last, digits, rfl, hlast, hdigits⟩
    · cases hc : c.isDigit with
      | true => exact .inl (List.forall_mem_cons.2 ⟨hc, hdigits⟩)
      | false => exact .inr ⟨[], c, cs, rfl, hc, hdigits⟩
    · exact .inr ⟨c :: before, last, digits, rfl, hlast, hdigits⟩

theorem any_getLast?_cutNumber_iff :
    ((cutNumber cs).1.getLast?.any fun last => 1 < last.utf8Size) = true ↔ EndsWide cs := by
  constructor
  · intro h
    rcases exists_last cs with hdigits | ⟨before, last, digits, rfl, hlast, hdigits⟩
    · rw [cutNumber_of_digits hdigits] at h
      cases h
    · rw [cutNumber_eq hlast hdigits, List.getLast?_concat] at h
      exact ⟨before, last, digits, rfl, hlast, hdigits, by simpa using h⟩
  · rintro ⟨before, last, digits, rfl, hlast, hdigits, hwide⟩
    rw [cutNumber_eq hlast hdigits, List.getLast?_concat]
    simpa using hwide

theorem parseId_abandoned_iff :
    (∃ reason, parseId c text cs = .error (.abandoned reason)) ↔ EndsWide cs := by
  rw [← any_getLast?_cutNumber_iff]
  unfold parseId
  dsimp only
  constructor
  · rintro ⟨reason, h⟩
    split at h
    · assumption
    · split at h
      · cases h
      · split at h
        · cases h
        · split at h <;> cases h
  · intro h
    rw [if_pos h]
    exact ⟨_, rfl⟩

/-! ### References -/

/-- A text has one first colon. -/
theorem split_unique {name rest name' rest' : List Char} (hname : ':' ∉ name) (hname' : ':' ∉ name')
    (h : name ++ ':' :: rest = name' ++ ':' :: rest') : name = name' ∧ rest = rest' := by
  have htake := Text.takeWhile_bne hname rest
  have hdrop := Text.dropWhile_bne hname rest
  rw [h, Text.takeWhile_bne hname'] at htake
  rw [h, Text.dropWhile_bne hname'] at hdrop
  exact ⟨htake.symm, (List.cons.inj hdrop).2.symm⟩

theorem parse_plain (h : ':' ∉ Text.trim text.toList) :
    parse c text = (parseId c (String.ofList (Text.trim text.toList)) (Text.trim text.toList)).map
      fun id => ⟨none, id⟩ := by
  rw [parse, Text.dropWhile_bne_eq_nil h]

theorem parse_kinded {name rest : List Char} {kind : DependencyKind}
    (h : Text.trim text.toList = name ++ ':' :: rest) (hname : ':' ∉ name)
    (hkind : DependencyKind.ofName? (String.ofList (Text.trim name)) = some kind) :
    parse c text = (parseId c (String.ofList (Text.trim text.toList)) (Text.trim rest)).map
      fun id => ⟨some kind, id⟩ := by
  simp only [parse, h, Text.dropWhile_bne hname, Text.takeWhile_bne hname, hkind]

theorem parse_unknown {name rest : List Char} (h : Text.trim text.toList = name ++ ':' :: rest)
    (hname : ':' ∉ name) (hkind : DependencyKind.ofName? (String.ofList (Text.trim name)) = none) :
    parse c text = .error (.error (.unknownKind (String.ofList (Text.trim text.toList))
      (String.ofList (Text.trim name)))) := by
  simp only [parse, h, Text.dropWhile_bne hname, Text.takeWhile_bne hname, hkind]

theorem map_abandoned_iff {ε α β : Type} {x : Except (Failure ε) α} {f : α → β} :
    (∃ reason, x.map f = .error (.abandoned reason)) ↔ ∃ reason, x = .error (.abandoned reason) := by
  cases x with
  | error e => simp [Except.map]
  | ok a => simp [Except.map]

/-- **A reference is read or refused, unless its number would have to be cut off inside a character.** -/
theorem parse_abandoned_iff :
    (∃ reason, parse c text = .error (.abandoned reason)) ↔ CutsCharacter text := by
  by_cases hcolon : ':' ∈ Text.trim text.toList
  · obtain ⟨name, rest, h, hname⟩ := List.eq_append_cons_of_mem hcolon
    constructor
    · rintro ⟨reason, hparse⟩
      cases hkind : DependencyKind.ofName? (String.ofList (Text.trim name)) with
      | none =>
        rw [parse_unknown h hname hkind] at hparse
        cases hparse
      | some kind =>
        rw [parse_kinded h hname hkind] at hparse
        have hwide := parseId_abandoned_iff.1 (map_abandoned_iff.1 ⟨reason, hparse⟩)
        exact ⟨_, .kinded h hname hkind, hwide⟩
    · rintro ⟨cs, hcs, hwide⟩
      cases hcs with
      | plain hnone => exact absurd hcolon hnone
      | kinded h' hname' hkind =>
        obtain ⟨rfl, rfl⟩ := split_unique hname hname' (h.symm.trans h')
        rw [parse_kinded h hname hkind]
        exact map_abandoned_iff.2 (parseId_abandoned_iff.2 hwide)
  · rw [parse_plain hcolon, map_abandoned_iff, parseId_abandoned_iff]
    constructor
    · intro hwide
      exact ⟨_, .plain hcolon, hwide⟩
    · rintro ⟨cs, hcs, hwide⟩
      cases hcs with
      | plain _ => exact hwide
      | kinded h _ _ =>
        rw [h] at hcolon
        exact absurd (by simp) hcolon

/-- So are the scalars of a literal. -/
theorem ofValue_abandoned_iff {leaf : Value} :
    (∃ reason, ofValue c leaf = .error (.abandoned reason)) ↔
      ∃ text, leaf = .text text ∧ CutsCharacter text := by
  cases leaf with
  | text s =>
    rw [ofValue, parse_abandoned_iff]
    simp
  | number n =>
    unfold ofValue
    dsimp only
    constructor
    · rintro ⟨reason, h⟩
      split at h
      · cases h
      · split at h <;> cases h
    · rintro ⟨_, h, _⟩
      cases h
  | null => simp [ofValue]
  | bool b => simp [ofValue]
  | array items => simp [ofValue]
  | object members => simp [ofValue]

end ScriptBundle.Reference
