import ScriptBundle.Proofs.Weight.Evaluation
import ScriptBundle.Proofs.Weight.Walk

/-!
# What weights consist of

The weight of a module is the set of the bits of all other self-registering modules that lead to
it.  The compile weight is a part of the bits that lead to it along compile dependencies.  A bit
that comes to a module along them is carried on at once only if the weight of the module grows; if
the bit has come there along other dependencies before, it may stay behind.

## Main definitions

* `launchRing`: three modules on a cycle.
* `lateBit`, `earlyBit`: the same dependencies in two orders; in the first one a bit stays behind.

## Main results

* `weight_iff_reaches`: **the weight of a module holds the bits of the other self-registering modules
  that lead to it, and no others.**
* `compileWeight_iff_leads`: **the compile weight of a module holds the bits that the tour through the
  dependencies carries there along compile dependencies.**
-/

namespace ScriptBundle.ModuleSet

open Relation

variable {s : ModuleSet} {w : Weights s.size} {v x : Fin s.size} {i : ℕ}

theorem bits_of_weigh (h : s.weigh = .ok w) : w.bits = s.bits := by
  obtain ⟨m, -, rfl⟩ := exists_marks_of_weigh h
  rfl

/-- Another module than the one with a bit does not have it. -/
theorem bit_of_ne (hx : s.bits[x].contains i = true) (hne : x ≠ v) :
    s.bits[v].contains i = false := by
  cases hv : s.bits[v].contains i
  · rfl
  · exact absurd (s.ownBits.distinct x v i hx hv) hne

/-! ### Weights -/

/-- **The weight of a module holds the bits of the other self-registering modules that lead to it, and
no others.**  In particular it does not hold the bit of the module itself. -/
theorem weight_iff_reaches (s : ModuleSet) (w : Weights s.size) (h : s.weigh = .ok w)
    (v : Fin s.size) :
    w.bits = s.bits ∧
    (∀ i, w.dependents[v].contains i = true ↔ ∃ x, x ≠ v ∧
      (s.modules.get x).isSelfRegistering = true ∧ w.bits[x].contains i = true ∧
        TransGen s.Edge x v) ∧
    ∀ i, w.bits[v].contains i = true → w.dependents[v].contains i = false := by
  rw [bits_of_weigh h]
  refine ⟨rfl, fun i => ?_, fun i hi => ?_⟩
  · rw [contains_dependents_iff h]
    constructor
    · rintro ⟨hown, x, hx, hxv⟩
      refine ⟨x, ?_, exists_bit_iff.1 ⟨i, hx⟩, hx, hxv⟩
      rintro rfl
      rw [hx] at hown
      cases hown
    · rintro ⟨x, hne, -, hx, hxv⟩
      exact ⟨bit_of_ne hx hne, x, hx, hxv⟩
  · rw [← Bool.not_eq_true, contains_dependents_iff h, hi]
    exact fun hown => Bool.noConfusion hown.1

/-- Three modules on a cycle: 0 needs 1 at launch, 1 needs 2 for its compilation, and 2 needs 0 at
launch. -/
abbrev launchRing : ModuleSet :=
  numbered (n := 3) #v[⟨[], [1], []⟩, ⟨[2], [], []⟩, ⟨[], [0], []⟩]

theorem isSome_weighWithin_launchRing :
    (launchRing.weighWithin 20 (.ofFn fun u => .singleton u)).isSome = true := by decide +kernel

/-- The weights of these modules. -/
def launchRingWeights : Weights launchRing.size := Option.get _ isSome_weighWithin_launchRing

theorem weigh_launchRing : launchRing.weigh = .ok launchRingWeights :=
  weigh_numbered (Option.some_get isSome_weighWithin_launchRing).symm

theorem launchRing_weight : launchRing.weigh = .ok launchRingWeights ∧
    (∀ i, launchRingWeights.dependents[0].contains i = true ↔ ∃ x, x ≠ 0 ∧
      (launchRing.modules.get x).isSelfRegistering = true ∧
        launchRingWeights.bits[x].contains i = true ∧ TransGen launchRing.Edge x 0) ∧
    ∀ i, launchRingWeights.bits[0].contains i = true →
      launchRingWeights.dependents[0].contains i = false :=
  ⟨weigh_launchRing, (weight_iff_reaches launchRing launchRingWeights weigh_launchRing 0).2⟩

/-! ### Compile weights -/

/-- **The compile weight of a module holds the bits that the tour through the dependencies carries there
along compile dependencies.**  The tour depends on weights alone, and there is one only.  All these
bits come from modules that lead there along compile dependencies.  No bit is left out of those of
the module whose compile dependency it is, and of the modules from which only compile dependencies
lead to that one. -/
theorem compileWeight_iff_leads (s : ModuleSet) (w : Weights s.size) (h : s.weigh = .ok w) :
    ∃ ps, (∀ qs, s.IsTour qs ↔ qs = ps) ∧ ∀ v : Fin s.size,
      (∀ i, w.compileDependents[v].contains i = true ↔ ∃ x, x ≠ v ∧
        (s.modules.get x).isSelfRegistering = true ∧ w.bits[x].contains i = true ∧
          Leads ps x v) ∧
      (∀ x, Leads ps x v → TransGen s.CompileEdge x v) ∧
      ∀ x u, (s.modules.get x).isSelfRegistering = true → s.CompileEdge u v →
        x = u ∨ TransGen s.Edge x u ∧ s.CompileOnly x u → Leads ps x v := by
  obtain ⟨m, ps, htour, hm, rfl⟩ := exists_tour_of_weigh h
  refine ⟨ps, fun qs => ⟨fun hqs => hqs.unique htour, ?_⟩, fun v => ⟨fun i => ?_, ?_, ?_⟩⟩
  · rintro rfl
    exact htour
  · rw [hm.compileDependents]
    constructor
    · rintro ⟨x, hx, hlead⟩
      refine ⟨x, ?_, exists_bit_iff.1 ⟨i, hx⟩, hx, hlead⟩
      rintro rfl
      have hown := compileDependents_own h hx
      rw [← Bool.not_eq_true, hm.compileDependents] at hown
      exact hown ⟨x, hx, hlead⟩
    · rintro ⟨x, -, -, hx, hlead⟩
      exact ⟨x, hx, hlead⟩
  · exact fun x hlead => transGen_of_leads (fun p hp => htour.hasPassage hp) hlead
  · intro x u hself huv hxu
    obtain ⟨i, hi⟩ := exists_bit_iff.2 hself
    exact htour.leads_of_compileEdge hi huv hxu

/-- Four modules.  The module 3 needs 0 and 1 for its compilation, and 1 needs 2 for its own; 0 needs 1
at launch. -/
abbrev lateBit : ModuleSet :=
  numbered (n := 4) #v[⟨[], [1], []⟩, ⟨[2], [], []⟩, ⟨[], [], []⟩, ⟨[0, 1], [], []⟩]

/-- The same dependencies, but those of 3 in the other order. -/
abbrev earlyBit : ModuleSet :=
  numbered (n := 4) #v[⟨[], [1], []⟩, ⟨[2], [], []⟩, ⟨[], [], []⟩, ⟨[1, 0], [], []⟩]

theorem isSome_weighWithin_lateBit :
    (lateBit.weighWithin 20 (.ofFn fun u => .singleton u)).isSome = true := by decide +kernel

theorem isSome_weighWithin_earlyBit :
    (earlyBit.weighWithin 20 (.ofFn fun u => .singleton u)).isSome = true := by decide +kernel

/-- The weights of the modules of `lateBit`. -/
def lateBitWeights : Weights lateBit.size := Option.get _ isSome_weighWithin_lateBit

/-- The weights of the modules of `earlyBit`. -/
def earlyBitWeights : Weights earlyBit.size := Option.get _ isSome_weighWithin_earlyBit

theorem weigh_lateBit : lateBit.weigh = .ok lateBitWeights :=
  weigh_numbered (Option.some_get isSome_weighWithin_lateBit).symm

theorem weigh_earlyBit : earlyBit.weigh = .ok earlyBitWeights :=
  weigh_numbered (Option.some_get isSome_weighWithin_earlyBit).symm

theorem lateBit_leads : lateBit.weigh = .ok lateBitWeights ∧
    ∃ ps, lateBit.IsTour ps ∧ Leads ps 3 1 ∧ Leads ps 1 2 ∧
      (lateBitWeights.compileDependents[2].contains 3 = true ↔ ∃ x, x ≠ 2 ∧
        (lateBit.modules.get x).isSelfRegistering = true ∧
          lateBitWeights.bits[x].contains 3 = true ∧ Leads ps x 2) := by
  obtain ⟨ps, htour, hall⟩ := compileWeight_iff_leads lateBit lateBitWeights weigh_lateBit
  refine ⟨weigh_lateBit, ps, (htour ps).2 rfl, ?_, ?_, (hall 2).1 3⟩
  · exact (hall 1).2.2 3 3 rfl (by decide) (.inl rfl)
  · exact (hall 2).2.2 1 1 rfl (by decide) (.inl rfl)

/-- **The compile weight of 2 lacks the bit of 3, which needs 1 for its compilation as 1 needs 2.**  With
the dependencies of 3 in the other order it does not. -/
theorem lateBit_compileWeight :
    (∃ w, lateBit.weigh = .ok w ∧ w.bits[3].contains 3 = true ∧
      (lateBit.modules.get 3).isSelfRegistering = true ∧ TransGen lateBit.CompileEdge 3 2 ∧
        w.compileDependents[2].contains 3 = false) ∧
    ∃ w, earlyBit.weigh = .ok w ∧ w.compileDependents[2].contains 3 = true := by
  have h31 : lateBit.CompileEdge 3 1 := by decide
  have h12 : lateBit.CompileEdge 1 2 := by decide
  refine ⟨⟨_, weigh_lateBit, ?_, rfl, (TransGen.single h31).tail h12, ?_⟩, _, weigh_earlyBit, ?_⟩
  · decide +kernel
  · decide +kernel
  · decide +kernel

end ScriptBundle.ModuleSet
