import ScriptBundle.Weight.Marks

/-!
# A bit for each module

Every self-registering module has one bit, which no other module has.  This is all that weights
have to know about the choice of the bits.

## Main definitions

* `OwnBits`: every module has at most one bit, and no two modules have the same one.

## Main results

* `ModuleSet.ownBits`: **the bits of the modules of a set are of this kind.**
* `ModuleSet.exists_bit_iff`: the self-registering modules have a bit.
* `OwnBits.contains_lessOwn`: of what comes in, a module leaves out its own bit.
-/

namespace ScriptBundle

/-- Every module has at most one bit, and no two modules have the same one. -/
structure OwnBits (bits : Vector BitSet n) : Prop where
  single : ∀ (u : Fin n) (i j : Nat),
    bits[u].contains i = true → bits[u].contains j = true → i = j
  distinct : ∀ (u v : Fin n) (i : Nat),
    bits[u].contains i = true → bits[v].contains i = true → u = v

/-- Of what comes in, a module leaves out its own bit. -/
theorem OwnBits.contains_lessOwn {bits : Vector BitSet n} (h : OwnBits bits) (incoming : BitSet)
    (v : Fin n) (i : Nat) :
    (Marks.lessOwn incoming bits[v]).contains i = true ↔
      incoming.contains i = true ∧ bits[v].contains i = false := by
  unfold Marks.lessOwn
  by_cases hint : incoming.intersects bits[v] = true
  · rw [if_pos hint, BitSet.contains_symmDiff]
    obtain ⟨j, hj, hvj⟩ := (BitSet.intersects_iff _ _).1 hint
    cases hvi : bits[v].contains i
    · simp
    · -- the only bit that is taken out is the module's own one, and it has come in
      obtain rfl : j = i := h.single v j i hvj hvi
      simp [hj]
  · rw [if_neg hint]
    constructor
    · intro hi
      refine ⟨hi, ?_⟩
      cases hvi : bits[v].contains i
      · rfl
      · exact absurd ((BitSet.intersects_iff _ _).2 ⟨i, hi, hvi⟩) hint
    · exact fun hi => hi.1

/-! ### The bits of a set of modules -/

namespace ModuleSet

theorem mem_bitOrder {s : ModuleSet} {u : Fin s.size} :
    u ∈ s.bitOrder ↔ (s.modules.get u).isSelfRegistering = true := by
  rw [bitOrder, (List.mergeSort_perm _ _).mem_iff, List.mem_filter]
  exact and_iff_right (List.mem_finRange u)

theorem contains_bits {s : ModuleSet} {u : Fin s.size} {i : Nat} :
    s.bits[u].contains i = true ↔
      (s.modules.get u).isSelfRegistering = true ∧ s.bitOrder.idxOf u = i := by
  unfold bits
  cases hu : (s.modules.get u).isSelfRegistering <;> simp [hu]

/-- **Every module has at most one bit, and no two modules have the same one.** -/
theorem ownBits (s : ModuleSet) : OwnBits s.bits where
  single u i j hi hj := (contains_bits.1 hi).2.symm.trans (contains_bits.1 hj).2
  distinct u v i hu hv := by
    obtain ⟨hu, hui⟩ := contains_bits.1 hu
    obtain ⟨hv, hvi⟩ := contains_bits.1 hv
    have hlu := List.idxOf_lt_length_of_mem (mem_bitOrder.2 hu)
    have hlv := List.idxOf_lt_length_of_mem (mem_bitOrder.2 hv)
    rw [← List.getElem_idxOf hlu, ← List.getElem_idxOf hlv]
    simp only [hui, hvi]

/-- The self-registering modules have a bit. -/
theorem exists_bit_iff {s : ModuleSet} {u : Fin s.size} :
    (∃ i, s.bits[u].contains i = true) ↔ (s.modules.get u).isSelfRegistering = true :=
  ⟨fun ⟨_, hi⟩ => (contains_bits.1 hi).1, fun hu => ⟨_, contains_bits.2 ⟨hu, rfl⟩⟩⟩

end ModuleSet

end ScriptBundle
