import Mathlib.Algebra.GroupWithZero.Nat
import Mathlib.Data.List.FinRange
import ScriptBundle.ModuleSet
import ScriptBundle.Weight.Basic

/-!
# Numbered modules

Sets of self-registering modules that differ in their numbers only.  Every graph is the graph of
such a set, and the bits follow the numbers.

## Main definitions

* `ScriptModule.numbered`: the module with a number.
* `ModuleSet.numbered`: the set of modules with some dependencies.

## Main results

* `ModuleSet.bits_numbered`: the bit of each module is its number.
-/

namespace ScriptBundle

/-- The self-registering module with a number, in the directory of the request. -/
def ScriptModule.numbered (k : Nat) : ScriptModule where
  key := .numbered ⟨".", k⟩
  path := ⟨k.repr ++ ".js"⟩
  category := "."
  number := some k
  source := ""
  modified := .epoch
  version := "0"
  manifest := { selfRegistering := true }

namespace ModuleSet

variable {n : Nat}

/-- In a set of self-registering modules of one category, the bits follow the places. -/
theorem bits_of_self {s : ModuleSet}
    (hself : ∀ u, (s.modules.get u).isSelfRegistering = true)
    (hcategory : ∀ u v, (s.modules.get u).category = (s.modules.get v).category) :
    s.bits = .ofFn fun u => .singleton u := by
  have horder : s.bitOrder = List.finRange s.size := by
    have hall : (List.finRange s.size).filter (fun u => (s.modules.get u).isSelfRegistering)
        = List.finRange s.size := List.filter_eq_self.2 fun u _ => hself u
    rw [bitOrder, hall]
    refine List.mergeSort_of_pairwise (List.pairwise_of_forall fun u v => ?_)
    rw [hcategory u v, Std.ReflOrd.compare_self]
    rfl
  rw [bits, horder]
  refine congrArg Vector.ofFn (funext fun u => ?_)
  rw [if_pos (hself u), List.idxOf_finRange]

/-- The set of self-registering modules with some dependencies, numbered by their places. -/
def numbered (links : Vector (Dependencies (Fin n)) n) : ModuleSet where
  size := n
  modules := .ofFn fun u => .numbered u
  links := links
  dir := ⟨"."⟩
  name := none

/-! ### Places of small sets

They are written as numbers, which needs that there are some. -/

instance neZero_two : NeZero 2 := ⟨Nat.succ_ne_zero 1⟩

instance neZero_four : NeZero 4 := ⟨Nat.succ_ne_zero 3⟩

instance [NeZero n] (links : Vector (Dependencies (Fin n)) n) : NeZero (numbered links).size :=
  inferInstanceAs (NeZero n)

theorem modules_get_numbered (links : Vector (Dependencies (Fin n)) n)
    (u : Fin (numbered links).size) : (numbered links).modules.get u = .numbered u :=
  Vector.getElem_ofFn u.2

/-- The bit of each module is its number. -/
theorem bits_numbered (links : Vector (Dependencies (Fin n)) n) :
    (numbered links).bits = .ofFn fun u => .singleton u :=
  bits_of_self (fun u => by rw [modules_get_numbered]; rfl)
    fun u v => by rw [modules_get_numbered, modules_get_numbered]; rfl

end ModuleSet

end ScriptBundle
