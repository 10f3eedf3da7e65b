import Mathlib.Order.Basic
import ScriptBundle.ModuleSet

/-!
# The order of module keys

Module ids, paths and module keys are compared part by part, so that their orders are total and
transitive because those of the parts are.

## Main results

* Instances of `Std.TransOrd` for `ModuleId`, `PathComponent`, `Path` and `ModuleKey`.
* `ModuleKey.compare_numbered`: no other key compares as equal with that of a module id.
-/

namespace ScriptBundle

instance : Std.TransOrd ModuleId :=
  inferInstanceAs (Std.TransCmp (compareLex (compareOn ModuleId.category) (compareOn ModuleId.number)))

instance : Std.LawfulEqOrd ModuleId where
  eq_of_compare := by
    rintro ⟨category, number⟩ ⟨category', number'⟩ h
    obtain ⟨hc, hn⟩ := Ordering.then_eq_eq.1 h
    obtain rfl : category = category' := Std.LawfulEqCmp.eq_of_compare hc
    obtain rfl : number = number' := Std.LawfulEqCmp.eq_of_compare hn
    rfl

/-! ### Components of paths -/

namespace PathComponent

theorem compare_eq_swap (a b : PathComponent) : Ord.compare a b = (Ord.compare b a).swap := by
  cases a <;> cases b
  case name.name s t => exact Std.OrientedOrd.eq_swap (a := s) (b := t)
  all_goals rfl

theorem isLE_trans {a b c : PathComponent} (hab : (Ord.compare a b).isLE = true)
    (hbc : (Ord.compare b c).isLE = true) : (Ord.compare a c).isLE = true := by
  cases a <;> cases b <;> cases c
  case name.name.name s t u => exact Std.TransOrd.isLE_trans (a := s) (b := t) (c := u) hab hbc
  all_goals
    first
    | rfl
    | exact absurd hab Bool.false_ne_true
    | exact absurd hbc Bool.false_ne_true

instance : Std.TransOrd PathComponent where
  eq_swap := compare_eq_swap _ _
  isLE_trans := isLE_trans

end PathComponent

/-! ### Paths and keys -/

instance : Std.TransOrd Path :=
  inferInstanceAs (Std.TransCmp (compareOn Path.components))

namespace ModuleKey

theorem compare_eq_swap (a b : ModuleKey) : Ord.compare a b = (Ord.compare b a).swap := by
  cases a <;> cases b
  case numbered.numbered i j => exact Std.OrientedOrd.eq_swap (a := i) (b := j)
  case file.file p q => exact Std.OrientedOrd.eq_swap (a := p) (b := q)
  all_goals rfl

theorem isLE_trans {a b c : ModuleKey} (hab : (Ord.compare a b).isLE = true)
    (hbc : (Ord.compare b c).isLE = true) : (Ord.compare a c).isLE = true := by
  cases a <;> cases b <;> cases c
  case numbered.numbered.numbered i j k =>
    exact Std.TransOrd.isLE_trans (a := i) (b := j) (c := k) hab hbc
  case file.file.file p q r => exact Std.TransOrd.isLE_trans (a := p) (b := q) (c := r) hab hbc
  all_goals
    first
    | rfl
    | exact absurd hab Bool.false_ne_true
    | exact absurd hbc Bool.false_ne_true

instance : Std.TransOrd ModuleKey where
  eq_swap := compare_eq_swap _ _
  isLE_trans := isLE_trans

/-- No other key compares as equal with that of a module id. -/
theorem compare_numbered {key : ModuleKey} {id : ModuleId} :
    Ord.compare key (.numbered id) = .eq ↔ key = .numbered id := by
  constructor
  · intro h
    cases key with
    | numbered id' =>
      have hid : Ord.compare id' id = .eq := h
      rw [Std.LawfulEqCmp.eq_of_compare hid]
    | file path => cases h
  · rintro rfl
    exact Std.ReflCmp.compare_self

end ModuleKey

end ScriptBundle
