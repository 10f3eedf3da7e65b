import ScriptBundle.BitSet.Lemmas
import ScriptBundle.Places
import ScriptBundle.Weight.Basic

/-!
# Marks

While weights are found, every module carries the bits that have reached it so far.  Bits are only
ever added, and there are finitely many, so that in the end nothing changes any more.

## Main definitions

* `Marks`: the bits that have reached the modules so far.
* `Marks.outgoing`: the bits that a module passes on.
* `Marks.visit`: the marks when bits reach a module.
* `Marks.missing`: how many bits could still reach some module.

## Main results

* `visit_eq_or_missing_lt`: a visit leaves fewer bits missing, if it changes anything.
-/

namespace ScriptBundle

/-- A number that is greater than all elements of some sets. -/
def widthOf : List BitSet → Nat
  | [] => 0
  | s :: rest => max (64 * s.words.length) (widthOf rest)

theorem lt_widthOf {sets : List BitSet} {s : BitSet} (hs : s ∈ sets) {i : Nat}
    (h : s.contains i = true) : i < widthOf sets := by
  induction sets with
  | nil => simp at hs
  | cons t rest ih =>
    have := BitSet.lt_of_contains h
    rcases List.mem_cons.1 hs with rfl | hs
    · unfold widthOf
      omega
    · have := ih hs
      unfold widthOf
      omega

/-- How many numbers below a bound are not in a set. -/
def missingOf (bound : Nat) (s : BitSet) : Nat := (List.range bound).countP fun i => !s.contains i

theorem missingOf_union_le (bound : Nat) (s t : BitSet) :
    missingOf bound (s ∪ t) ≤ missingOf bound s :=
  List.countP_mono_left fun i _ h => by
    rw [BitSet.contains_union] at h
    simp_all

theorem missingOf_union_lt {bound : Nat} {s t : BitSet} (h : s ∪ t ≠ s)
    (ht : ∀ i, t.contains i = true → i < bound) : missingOf bound (s ∪ t) < missingOf bound s := by
  have : ¬ ∀ i, (s ∪ t).contains i = s.contains i := fun he => h (BitSet.ext he)
  obtain ⟨i, hi⟩ := Classical.not_forall.1 this
  rw [BitSet.contains_union] at hi
  have hs : s.contains i = false := by
    cases hs : s.contains i
    · rfl
    · simp [hs] at hi
  have hti : t.contains i = true := by simpa [hs] using hi
  refine countP_lt (a := i) (fun j _ hj => ?_) (List.mem_range.2 (ht i hti)) ?_ ?_
  · rw [BitSet.contains_union] at hj
    simp_all
  · simp [hti]
  · simp [hs]

/-- How many numbers below a bound are not in some sets, counted for each set. -/
def missingIn (bound : Nat) : List BitSet → Nat
  | [] => 0
  | s :: rest => missingOf bound s + missingIn bound rest

/-- Putting one set in the place of another moves the count by what is missing in the two. -/
theorem missingIn_set (bound : Nat) {sets : List BitSet} {k : Nat} (hk : k < sets.length) (s : BitSet) :
    missingIn bound (sets.set k s) + missingOf bound sets[k] = missingIn bound sets + missingOf bound s := by
  induction sets generalizing k with
  | nil => simp at hk
  | cons t rest ih =>
    cases k with
    | zero =>
      simp only [List.set_cons_zero, List.getElem_cons_zero, missingIn]
      omega
    | succ k =>
      have hrest := ih (Nat.lt_of_succ_lt_succ hk)
      simp only [List.set_cons_succ, List.getElem_cons_succ, missingIn]
      omega

/-! ### The marks of the modules -/

/-- The bits that have reached the modules so far, if the modules have the given bits. -/
structure Marks (bits : Vector BitSet n) where
  dependents : Vector BitSet n
  compileDependents : Vector BitSet n
  fits : ∀ (u : Fin n) (i : Nat), dependents[u].contains i = true → i < widthOf bits.toList
  compileFits : ∀ (u : Fin n) (i : Nat), compileDependents[u].contains i = true →
    i < widthOf bits.toList
  deriving DecidableEq

/-- If all bits of some sets are below a bound, and so are those that come to one of them, then they are
afterwards. -/
theorem lt_of_contains_set {sets : Vector BitSet n} {bound : Nat}
    (hsets : ∀ (u : Fin n) (i : Nat), sets[u].contains i = true → i < bound) {t : BitSet}
    (ht : ∀ i, t.contains i = true → i < bound) (v u : Fin n) (i : Nat)
    (h : (sets.set v (sets[v] ∪ t) v.isLt)[u].contains i = true) : i < bound := by
  rw [getElem_set_place] at h
  by_cases huv : u = v
  · rw [if_pos huv, BitSet.contains_union, Bool.or_eq_true] at h
    exact h.elim (hsets v i) (ht i)
  · rw [if_neg huv] at h
    exact hsets u i h

namespace Marks

variable {bits : Vector BitSet n}

/-- Nothing has reached any module. -/
def none (bits : Vector BitSet n) : Marks bits :=
  ⟨Vector.replicate n ∅, Vector.replicate n ∅, by simp, by simp⟩

/-- The bits that a module passes on to what it needs. -/
def outgoing (m : Marks bits) (u : Fin n) : BitSet := m.dependents[u] ∪ bits[u]

/-- The bits that a module passes on along a compile dependency; none along another one. -/
def compileOutgoing (m : Marks bits) (u : Fin n) : DependencyKind → BitSet
  | .compile => m.compileDependents[u] ∪ bits[u]
  | _ => ∅

/-- The bits that come in, less a module's own one. -/
def lessOwn (incoming own : BitSet) : BitSet :=
  if incoming.intersects own then incoming.symmDiff own else incoming

theorem lt_of_bits (u : Fin n) {i : Nat} (h : bits[u].contains i = true) : i < widthOf bits.toList :=
  lt_widthOf (Vector.mem_toList_iff.2 (Vector.getElem_mem u.2)) h

theorem lt_of_outgoing (m : Marks bits) (u : Fin n) {i : Nat}
    (h : (m.outgoing u).contains i = true) : i < widthOf bits.toList := by
  rw [outgoing, BitSet.contains_union, Bool.or_eq_true] at h
  exact h.elim (m.fits u i) (lt_of_bits u)

theorem lt_of_compileOutgoing (m : Marks bits) (u : Fin n) (kind : DependencyKind) {i : Nat}
    (h : (m.compileOutgoing u kind).contains i = true) : i < widthOf bits.toList := by
  cases kind with
  | compile =>
    rw [compileOutgoing, BitSet.contains_union, Bool.or_eq_true] at h
    exact h.elim (m.compileFits u i) (lt_of_bits u)
  | launch => simp [compileOutgoing] at h
  | optional => simp [compileOutgoing] at h

theorem lt_of_lessOwn {incoming : BitSet}
    (hincoming : ∀ i, incoming.contains i = true → i < widthOf bits.toList) (v : Fin n) {i : Nat}
    (h : (lessOwn incoming bits[v]).contains i = true) : i < widthOf bits.toList := by
  unfold lessOwn at h
  by_cases hown : incoming.intersects bits[v] = true
  · rw [if_pos hown, BitSet.contains_symmDiff] at h
    cases hi : incoming.contains i
    · rw [hi, Bool.false_xor] at h
      exact lt_of_bits v h
    · exact hincoming i hi
  · rw [if_neg hown] at h
    exact hincoming i h

/-- The marks when what the module `u` passes on along a dependency of some kind has reached the
module `v`. -/
def visit (m : Marks bits) (u : Fin n) (kind : DependencyKind) (v : Fin n) : Marks bits where
  dependents := m.dependents.set v (m.dependents[v] ∪ lessOwn (m.outgoing u) bits[v]) v.isLt
  compileDependents := m.compileDependents.set v
    (m.compileDependents[v] ∪ lessOwn (m.compileOutgoing u kind) bits[v]) v.isLt
  fits := lt_of_contains_set m.fits (fun _ => lt_of_lessOwn (fun _ => m.lt_of_outgoing u) v) v
  compileFits := lt_of_contains_set m.compileFits
    (fun _ => lt_of_lessOwn (fun _ => m.lt_of_compileOutgoing u kind) v) v

/-- How many bits could still reach some module, along dependencies of all kinds and along compile
dependencies. -/
def missing (m : Marks bits) : Nat :=
  missingIn (widthOf bits.toList) m.dependents.toList +
    missingIn (widthOf bits.toList) m.compileDependents.toList

/-- Bits that come to a module are not missing any more. -/
theorem missingIn_set_union (sets : Vector BitSet n) (v : Fin n) (t : BitSet) (bound : Nat) :
    missingIn bound (sets.set v (sets[v] ∪ t) v.isLt).toList + missingOf bound sets[v]
      = missingIn bound sets.toList + missingOf bound (sets[v] ∪ t) := by
  have hv : v.1 < sets.toList.length := by simp
  have hset := missingIn_set bound hv (sets[v] ∪ t)
  rw [Vector.toList_set]
  simpa using hset

theorem missingIn_set_union_le (sets : Vector BitSet n) (v : Fin n) (t : BitSet) (bound : Nat) :
    missingIn bound (sets.set v (sets[v] ∪ t) v.isLt).toList ≤ missingIn bound sets.toList := by
  have hset := missingIn_set_union sets v t bound
  have hle := missingOf_union_le bound sets[v] t
  omega

theorem missingIn_set_union_lt {sets : Vector BitSet n} {v : Fin n} {t : BitSet} {bound : Nat}
    (h : sets[v] ∪ t ≠ sets[v]) (ht : ∀ i, t.contains i = true → i < bound) :
    missingIn bound (sets.set v (sets[v] ∪ t) v.isLt).toList < missingIn bound sets.toList := by
  have hset := missingIn_set_union sets v t bound
  have hlt := missingOf_union_lt h ht
  omega

theorem missing_visit_le (m : Marks bits) (u : Fin n) (kind : DependencyKind) (v : Fin n) :
    (m.visit u kind v).missing ≤ m.missing :=
  Nat.add_le_add (missingIn_set_union_le ..) (missingIn_set_union_le ..)

theorem missing_visit_lt (m : Marks bits) (u : Fin n) (kind : DependencyKind) (v : Fin n)
    (h : (m.visit u kind v).dependents[v] ≠ m.dependents[v]) :
    (m.visit u kind v).missing < m.missing := by
  have hne : m.dependents[v] ∪ lessOwn (m.outgoing u) bits[v] ≠ m.dependents[v] := by
    simpa [visit] using h
  have hlt := missingIn_set_union_lt hne fun _ => lt_of_lessOwn (fun _ => m.lt_of_outgoing u) v
  exact Nat.add_lt_add_of_lt_of_le hlt (missingIn_set_union_le ..)

/-- A visit changes nothing, or fewer bits are missing afterwards. -/
theorem visit_eq_or_missing_lt (m : Marks bits) (u : Fin n) (kind : DependencyKind) (v : Fin n) :
    m.visit u kind v = m ∨ (m.visit u kind v).missing < m.missing := by
  by_cases h : m.dependents[v] ∪ lessOwn (m.outgoing u) bits[v] = m.dependents[v]
  · by_cases hcompile : m.compileDependents[v] ∪ lessOwn (m.compileOutgoing u kind) bits[v]
        = m.compileDependents[v]
    · left
      have hsame : m.dependents.set v m.dependents[v] v.isLt = m.dependents := Vector.set_getElem_self _
      have hsame' : m.compileDependents.set v m.compileDependents[v] v.isLt = m.compileDependents :=
        Vector.set_getElem_self _
      unfold visit
      simp only [h, hcompile, hsame, hsame']
    · right
      have hlt := missingIn_set_union_lt hcompile
        fun _ => lt_of_lessOwn (fun _ => m.lt_of_compileOutgoing u kind) v
      exact Nat.add_lt_add_of_le_of_lt (missingIn_set_union_le ..) hlt
  · right
    refine m.missing_visit_lt u kind v ?_
    simpa [visit] using h

end Marks

end ScriptBundle
