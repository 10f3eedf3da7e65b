import ScriptBundle.BitSet.Basic
import ScriptBundle.ModuleSet
import ScriptBundle.Sorted

/-!
# Weights

Every self-registering module has a bit of its own.  The weight of a module is the set of the bits
of all modules that need it, directly or through others.

Bits are handed out in three passes.  The first one counts the self-registering modules of each category
and numbers them within it.  The second one lays the categories one behind the other, in the order of
their names.  The third one gives each module its bit and empties the weights that it had before.

## Main definitions

* `ModuleSet.bitOrder`: the self-registering modules in the order of their bits.
* `ModuleSet.bits`: the bit of each module.
* `Weights`: the bits and the weights of the modules of a set.
* `tally`, `offsetsOf`: the first two passes.
* `ModuleSet.layOutBits`: all three of them.
-/

namespace ScriptBundle

/-- The bits and the weights of `n` modules. -/
structure Weights (n : Nat) where
  /-- The bit of each module, as a set; empty for a module without a bit. -/
  bits : Vector BitSet n
  /-- The bits of the modules that need a module in any way. -/
  dependents : Vector BitSet n
  /-- The bits of the modules that need a module along compile dependencies. -/
  compileDependents : Vector BitSet n

/-- No bits and no weights. -/
def Weights.none (n : Nat) : Weights n :=
  ⟨Vector.replicate n ∅, Vector.replicate n ∅, Vector.replicate n ∅⟩

namespace ModuleSet

/-- The self-registering modules in the order of their bits: by category, and in the order of the
set within a category. -/
def bitOrder (s : ModuleSet) : List (Fin s.size) :=
  ((List.finRange s.size).filter fun u => (s.modules.get u).isSelfRegistering).mergeSort fun u v =>
    (compare (s.modules.get u).category (s.modules.get v).category).isLE

/-- The bit of each module: the place that a self-registering module has in their order. -/
def bits (s : ModuleSet) : Vector BitSet s.size :=
  let order := s.bitOrder
  Vector.ofFn fun u =>
    if (s.modules.get u).isSelfRegistering then .singleton (order.idxOf u) else ∅

end ModuleSet

/-! ### Handing out the bits -/

/-- What is known of some modules about their categories. -/
structure Tally where
  /-- How many self-registering modules each category has. -/
  counts : List (String × Nat)
  /-- For each module its number within its category, if it registers itself. -/
  numbers : List (Option Nat)

/-- One more module. -/
def Tally.add (t : Tally) (m : ScriptModule) : Tally :=
  if m.isSelfRegistering then
    let count := (Sorted.find? m.category t.counts).getD 0
    ⟨Sorted.insert m.category (count + 1) t.counts, t.numbers ++ [some count]⟩
  else ⟨t.counts, t.numbers ++ [none]⟩

/-- The self-registering modules are counted. -/
def tally (ms : List ScriptModule) : Tally := ms.foldl .add ⟨[], []⟩

/-- The categories are laid one behind the other: the first bit of each of them, and the number of
bits. -/
def offsetsOf (counts : List (String × Nat)) : List (String × Nat) × Nat :=
  counts.foldl (fun (offsets, next) (category, count) =>
    (Sorted.insert category next offsets, next + count)) ([], 0)

/-- The bit of a module with a number within its category; none if no bits have been laid out for the
category. -/
def bitAt? (offsets : List (String × Nat)) (m : ScriptModule) : Option Nat → Option BitSet
  | some number => (Sorted.find? m.category offsets).map fun offset => .singleton (offset + number)
  | none => some ∅

/-- Give a module its bit, and empty its weights. -/
def Weights.renew {n : Nat} (w : Weights n) (u : Fin n) (bit : BitSet) : Weights n :=
  ⟨w.bits.set u bit u.isLt, w.dependents.set u ∅ u.isLt, w.compileDependents.set u ∅ u.isLt⟩

/-- Give each module its bit, whatever bits and weights there are before. -/
def ModuleSet.layOutBits (s : ModuleSet) (before : Weights s.size) : Option (Weights s.size) :=
  let t := tally s.modules.toList
  let offsets := (offsetsOf t.counts).1
  ((List.finRange s.size).zip t.numbers).foldlM (fun w (u, number) =>
    (bitAt? offsets (s.modules.get u) number).map (w.renew u)) before

end ScriptBundle
