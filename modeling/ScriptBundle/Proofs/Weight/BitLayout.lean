import Mathlib.Algebra.GroupWithZero.Nat
import Mathlib.Data.List.Induction
import Mathlib.Data.Set.Function
import Mathlib.Data.String.Basic
import ScriptBundle.Proofs.Sorted.Lookup
import ScriptBundle.Proofs.Sorted.Stable
import ScriptBundle.Proofs.Weight.Bits
import ScriptBundle.Weight.Basic

/-!
# The layout of the bits

The numbers that the modules have within their categories and the first bits of the categories are found in
separate passes.  Together they give each self-registering module the place that it has when these modules
are sorted by category.  So no two modules have the same bit, and no bit is left out.

## Main definitions

* `countIn`, `countBelow`: the self-registering modules of a category, and those of smaller ones.
* `Tally.Counts`: what the first pass has found out of some modules.
* `Weights.Renewed`: what the third pass has done to the weights of some modules.

## Main results

* `counts_tally`, `find?_offsetsOf`: what the first two passes find out.
* `idxOf_bitOrder`: the place of a module in the order of the bits, counted from its category.
* `layOutBits_eq`: **the passes give each module its bit, and leave all weights empty.**
* `layOutBits_spec`: **the bits are the numbers below the number of self-registering modules, each of
  them once, by category and by place within a category.**
-/

namespace ScriptBundle

/-! ### Counting -/

/-- How many self-registering modules are of a category. -/
def countIn (ms : List ScriptModule) (category : String) : ℕ :=
  ms.countP fun m => m.isSelfRegistering && m.category == category

/-- How many self-registering modules are of a category with a smaller name. -/
def countBelow (ms : List ScriptModule) (category : String) : ℕ :=
  ms.countP fun m => m.isSelfRegistering && decide (m.category < category)

/-- The sum of the counts of the categories with a smaller name. -/
def sumBelow (category : String) : List (String × ℕ) → ℕ
  | [] => 0
  | (c, count) :: counts => (if c < category then count else 0) + sumBelow category counts

variable {ms : List ScriptModule} {m : ScriptModule} {counts : List (String × ℕ)} {category c : String}
  {t : Tally}

theorem countIn_concat : countIn (ms ++ [m]) c
    = countIn ms c + if m.isSelfRegistering ∧ m.category = c then 1 else 0 := by
  rw [countIn, List.countP_append, List.countP_singleton]
  simp [countIn]

theorem countBelow_concat : countBelow (ms ++ [m]) c
    = countBelow ms c + if m.isSelfRegistering ∧ m.category < c then 1 else 0 := by
  rw [countBelow, List.countP_append, List.countP_singleton]
  simp [countBelow]

theorem compare_eq_lt_iff : compare category c = .lt ↔ category < c := compare_lt_iff_lt

/-- One more module of a category makes the sum greater for the categories behind it. -/
theorem sumBelow_insert (h : Sorted.Ascending counts) :
    sumBelow c (Sorted.insert category ((Sorted.find? category counts).getD 0 + 1) counts)
      = sumBelow c counts + if category < c then 1 else 0 := by
  induction counts with
  | nil => simp [sumBelow]
  | cons e counts ih =>
    obtain ⟨k, count⟩ := e
    obtain ⟨hfirst, hcounts⟩ := List.pairwise_cons.1 h
    unfold Sorted.insert
    cases hk : compare category k with
    | lt =>
      have hnone : Sorted.find? category ((k, count) :: counts) = none :=
        Sorted.find?_eq_none_of_lt <|
          List.forall_mem_cons.2 ⟨hk, fun e he => Std.TransCmp.lt_trans hk (hfirst e he)⟩
      simp only [hnone, sumBelow, Option.getD_none, Nat.zero_add]
      omega
    | eq =>
      obtain rfl := Std.LawfulEqCmp.eq_of_compare hk
      simp only [Sorted.find?_cons, hk, Ordering.isEq_eq, if_true, sumBelow, Option.getD_some]
      split_ifs <;> omega
    | gt =>
      simp only [Sorted.find?_cons, hk, Ordering.isEq_gt, Bool.false_eq_true, if_false, sumBelow,
        ih hcounts]
      omega

/-! ### The first pass -/

/-- What the first pass has found out of some modules. -/
structure Tally.Counts (t : Tally) (ms : List ScriptModule) : Prop where
  ascending : Sorted.Ascending t.counts
  getD_find? (c : String) : (Sorted.find? c t.counts).getD 0 = countIn ms c
  sumBelow_eq (c : String) : sumBelow c t.counts = countBelow ms c
  getElem?_numbers (i : ℕ) : t.numbers[i]? = ms[i]?.map fun m =>
    if m.isSelfRegistering then some (countIn (ms.take i) m.category) else none

theorem Tally.Counts.length (h : t.Counts ms) : t.numbers.length = ms.length := by
  have hnone (i : ℕ) : t.numbers.length ≤ i ↔ ms.length ≤ i := by
    rw [← List.getElem?_eq_none_iff, h.getElem?_numbers, Option.map_eq_none_iff,
      List.getElem?_eq_none_iff]
  exact le_antisymm ((hnone _).2 le_rfl) ((hnone _).1 le_rfl)

/-- The numbers stay as they are when one more module gets the number of those of its category. -/
theorem Tally.Counts.getElem?_concat (h : t.Counts ms) {number : Option ℕ}
    (hnumber : number = if m.isSelfRegistering then some (countIn ms m.category) else none) (i : ℕ) :
    (t.numbers ++ [number])[i]? = (ms ++ [m])[i]?.map fun m' =>
      if m'.isSelfRegistering then some (countIn ((ms ++ [m]).take i) m'.category) else none := by
  rcases lt_trichotomy i ms.length with hlt | rfl | hgt
  · rw [List.getElem?_append_left (by rwa [h.length]), List.getElem?_append_left hlt,
      List.take_append_of_le_length hlt.le, h.getElem?_numbers]
  · rw [← h.length, List.getElem?_concat_length, h.length, List.getElem?_concat_length,
      List.take_left, hnumber]
    rfl
  · rw [List.getElem?_eq_none, List.getElem?_eq_none]
    · rfl
    · simpa using hgt.nat_succ_le
    · simpa [h.length] using hgt.nat_succ_le

/-- **One more module is counted.** -/
theorem Tally.Counts.add (h : t.Counts ms) (m : ScriptModule) : (t.add m).Counts (ms ++ [m]) := by
  unfold Tally.add
  by_cases hself : m.isSelfRegistering = true
  · rw [if_pos hself]
    refine ⟨Sorted.ascending_insert h.ascending, fun c => ?_, fun c => ?_, h.getElem?_concat ?_⟩
    · dsimp only
      rw [Sorted.find?_insert, countIn_concat, ← h.getD_find? c]
      by_cases hc : m.category = c
      · subst hc
        rw [if_pos Std.ReflCmp.compare_self, if_pos ⟨hself, rfl⟩, Option.getD_some]
      · have hne : compare c m.category ≠ .eq := fun heq =>
          hc (Std.LawfulEqCmp.eq_of_compare heq).symm
        rw [if_neg hne, if_neg fun hm => hc hm.2, Nat.add_zero]
    · dsimp only
      rw [sumBelow_insert h.ascending, h.sumBelow_eq, countBelow_concat]
      simp [hself]
    · rw [if_pos hself, h.getD_find?]
  · rw [if_neg hself]
    refine ⟨h.ascending, fun c => ?_, fun c => ?_, h.getElem?_concat (if_neg hself).symm⟩
    · rw [countIn_concat, if_neg fun hm => hself hm.1, h.getD_find?, Nat.add_zero]
    · rw [countBelow_concat, if_neg fun hm => hself hm.1, h.sumBelow_eq, Nat.add_zero]

/-- **The first pass counts the self-registering modules.** -/
theorem counts_tally (ms : List ScriptModule) : (tally ms).Counts ms := by
  induction ms using List.reverseRecOn with
  | nil => exact ⟨.nil, fun c => rfl, fun c => rfl, fun i => rfl⟩
  | append_singleton ms m ih =>
    rw [tally, List.foldl_append]
    exact ih.add m

/-! ### The second pass -/

theorem sumBelow_concat (counts : List (String × ℕ)) (e : String × ℕ) :
    sumBelow c (counts ++ [e]) = sumBelow c counts + if e.1 < c then e.2 else 0 := by
  induction counts with
  | nil => simp [sumBelow]
  | cons e' counts ih =>
    rw [List.cons_append, sumBelow, sumBelow, ih]
    omega

theorem sumBelow_eq_sum (h : ∀ e ∈ counts, e.1 < c) : sumBelow c counts = (counts.map Prod.snd).sum := by
  induction counts with
  | nil => rfl
  | cons e counts ih =>
    obtain ⟨hfirst, hcounts⟩ := List.forall_mem_cons.1 h
    rw [sumBelow, if_pos hfirst, ih hcounts, List.map_cons, List.sum_cons]

/-- **A category with bits has its first bit behind those of the categories with smaller names.** -/
theorem find?_offsetsOf (h : Sorted.Ascending counts) :
    (offsetsOf counts).2 = (counts.map Prod.snd).sum ∧
      ∀ c, Sorted.find? c (offsetsOf counts).1
        = (Sorted.find? c counts).map fun _ => sumBelow c counts := by
  induction counts using List.reverseRecOn with
  | nil => exact ⟨rfl, fun c => rfl⟩
  | append_singleton counts e ih =>
    obtain ⟨hcounts, -, hlast⟩ := List.pairwise_append.1 h
    obtain ⟨hnext, hoffsets⟩ := ih hcounts
    have hlt : ∀ e' ∈ counts, compare e'.1 e.1 = .lt := fun e' he' => hlast e' he' e List.mem_cons_self
    have hfind (c : String) : Sorted.find? c (counts ++ [e])
        = if compare c e.1 = .eq then some e.2 else Sorted.find? c counts := by
      rw [← Sorted.insert_of_forall_gt fun e' he' => Std.OrientedCmp.gt_of_lt (hlt e' he'),
        Sorted.find?_insert]
    have hstep : offsetsOf (counts ++ [e])
        = (Sorted.insert e.1 (offsetsOf counts).2 (offsetsOf counts).1, (offsetsOf counts).2 + e.2) := by
      rw [offsetsOf, List.foldl_append]
      rfl
    rw [hstep]
    refine ⟨by simp [hnext], fun c => ?_⟩
    dsimp only
    rw [Sorted.find?_insert, hfind, sumBelow_concat, hoffsets]
    by_cases hc : compare c e.1 = .eq
    · obtain rfl := Std.LawfulEqCmp.eq_of_compare hc
      have hsum := sumBelow_eq_sum fun e' he' => compare_eq_lt_iff.1 (hlt e' he')
      rw [if_pos hc, if_pos hc, Option.map_some, if_neg (lt_irrefl _), hnext, hsum, Nat.add_zero]
    · rw [if_neg hc, if_neg hc]
      -- the last category adds nothing to the sum for a category in front of it
      refine Option.map_congr fun count hcount => ?_
      obtain ⟨k, hk, hmem⟩ := Sorted.mem_of_find? hcount
      obtain rfl := Std.LawfulEqCmp.eq_of_compare hk
      rw [if_neg (compare_eq_lt_iff.1 (hlt _ hmem)).asymm, Nat.add_zero]

/-! ### The order of the bits -/

namespace ModuleSet

variable {s : ModuleSet} {u v : Fin s.size}

/-- Which of two modules has the category with the smaller name. -/
def byCategory (s : ModuleSet) (u v : Fin s.size) : Ordering :=
  compare (s.modules.get u).category (s.modules.get v).category

instance (s : ModuleSet) : Std.TransCmp s.byCategory :=
  inferInstanceAs <| Std.TransCmp <| compareOn fun u => (s.modules.get u).category

instance (s : ModuleSet) : DecidableRel (Sorted.Ahead s.byCategory) := fun _ _ =>
  inferInstanceAs (Decidable (_ ∨ _ ∧ _))

theorem ahead_byCategory_iff : Sorted.Ahead s.byCategory u v ↔
    (s.modules.get u).category < (s.modules.get v).category ∨
      (s.modules.get u).category = (s.modules.get v).category ∧ u < v := by
  rw [Sorted.Ahead, byCategory, compare_eq_lt_iff, Std.LawfulEqCmp.compare_eq_iff_eq]

/-- The self-registering modules stand by category, and by place within a category. -/
theorem pairwise_bitOrder (s : ModuleSet) : s.bitOrder.Pairwise (Sorted.Ahead s.byCategory) :=
  Sorted.pairwise_mergeSort ((List.sortedLT_finRange s.size).pairwise.sublist List.filter_sublist)

theorem toList_modules (s : ModuleSet) :
    s.modules.toList = (List.finRange s.size).map s.modules.get := by
  apply List.ext_getElem
  · simp
  · intro i hi hi'
    simp [Vector.get]

/-- The places in front of a place are the first ones. -/
theorem countP_take_places {n : ℕ} (u : Fin n) (p : Fin n → Bool) :
    ((List.finRange n).take u).countP p = (List.finRange n).countP fun v => p v && decide (v < u) := by
  have htake : ((List.finRange n).take u).countP p
      = ((List.finRange n).take u).countP fun v => p v && decide (v < u) := by
    refine List.countP_congr fun v hv => ?_
    obtain ⟨i, hi, rfl⟩ := List.mem_take_iff_getElem.1 hv
    have hlt : i < u.1 := (lt_min_iff.1 hi).1
    simp [Fin.lt_def, hlt]
  have hdrop : ((List.finRange n).drop u).countP (fun v => p v && decide (v < u)) = 0 := by
    rw [List.countP_eq_zero]
    intro v hv
    obtain ⟨i, hi, rfl⟩ := List.mem_drop_iff_getElem.1 hv
    simp [Fin.lt_def]
  rw [htake, ← Nat.add_zero (List.countP _ _), ← hdrop, ← List.countP_append, List.take_append_drop]

/-- **The bit of a module, counted from the bits of its category.** -/
theorem idxOf_bitOrder (hu : (s.modules.get u).isSelfRegistering = true) :
    s.bitOrder.idxOf u = countBelow s.modules.toList (s.modules.get u).category
      + countIn (s.modules.toList.take u) (s.modules.get u).category := by
  have hcount := Sorted.idxOf_eq_countP (fun _ _ => Sorted.Ahead.asymm) s.pairwise_bitOrder
    (mem_bitOrder.2 hu)
  rw [bitOrder, (List.mergeSort_perm _ _).countP_eq, List.countP_filter] at hcount
  -- in front of a module are those of a smaller category, and those in front of it of its own
  rw [bitOrder, hcount, List.countP_eq_countP_filter_add _ _ fun v =>
      decide ((s.modules.get v).category < (s.modules.get u).category), List.countP_filter,
    List.countP_filter, countBelow, countIn, toList_modules, ← List.map_take, List.countP_map,
    List.countP_map, countP_take_places]
  congr 1
  · refine List.countP_congr fun v _ => ?_
    simp only [Bool.and_eq_true, decide_eq_true_eq, Function.comp_apply, ahead_byCategory_iff]
    constructor
    · rintro ⟨⟨-, hself⟩, hlt⟩
      exact ⟨hself, hlt⟩
    · rintro ⟨hself, hlt⟩
      exact ⟨⟨.inl hlt, hself⟩, hlt⟩
  · refine List.countP_congr fun v _ => ?_
    simp only [Bool.and_eq_true, decide_eq_true_eq, Function.comp_apply, ahead_byCategory_iff,
      Bool.not_eq_true', decide_eq_false_iff_not, beq_iff_eq]
    constructor
    · rintro ⟨⟨hahead, hself⟩, hlt⟩
      obtain ⟨heq, hvu⟩ := hahead.resolve_left hlt
      exact ⟨⟨hself, heq⟩, hvu⟩
    · rintro ⟨⟨hself, heq⟩, hvu⟩
      exact ⟨⟨.inr ⟨heq, hvu⟩, hself⟩, heq.not_lt⟩

end ModuleSet

/-! ### The third pass -/

/-- The weights `w` come from others when some modules are given bits. -/
structure Weights.Renewed {n : ℕ} (before w : Weights n) (us : List (Fin n)) (f : Fin n → BitSet) :
    Prop where
  bits (v : Fin n) : w.bits[v] = if v ∈ us then f v else before.bits[v]
  dependents (v : Fin n) : w.dependents[v] = if v ∈ us then ∅ else before.dependents[v]
  compileDependents (v : Fin n) :
    w.compileDependents[v] = if v ∈ us then ∅ else before.compileDependents[v]

section

variable {n : ℕ} {before w : Weights n} {us : List (Fin n)} {f : Fin n → BitSet}

theorem Weights.Renewed.cons {u : Fin n} (h : (before.renew u (f u)).Renewed w us f) :
    before.Renewed w (u :: us) f := by
  have hset (xs : Vector BitSet n) (f : Fin n → BitSet) (v : Fin n) :
      (if v ∈ us then f v else (xs.set u (f u) u.isLt)[v]) = if v ∈ u :: us then f v else xs[v] := by
    rw [getElem_set_place]
    by_cases hv : v = u
    · simp [hv]
    · simp [hv]
  exact ⟨fun v => (h.bits v).trans (hset _ _ v), fun v => (h.dependents v).trans (hset _ (fun _ => ∅) v),
    fun v => (h.compileDependents v).trans (hset _ (fun _ => ∅) v)⟩

/-- If bits have been laid out for every module of a list, all of them are given theirs. -/
theorem exists_renewed (give : Fin n → Option ℕ → Option BitSet) (f : Fin n → BitSet)
    (es : List (Fin n × Option ℕ)) (hes : ∀ e ∈ es, give e.1 e.2 = some (f e.1)) (before : Weights n) :
    ∃ w, es.foldlM (fun w (u, number) => (give u number).map (w.renew u)) before = some w ∧
      before.Renewed w (es.map Prod.fst) f := by
  induction es generalizing before with
  | nil => exact ⟨before, rfl, fun v => by simp, fun v => by simp, fun v => by simp⟩
  | cons e es ih =>
    obtain ⟨u, number⟩ := e
    obtain ⟨hgive, hes⟩ := List.forall_mem_cons.1 hes
    obtain ⟨w, hw, hrenewed⟩ := ih hes (before.renew u (f u))
    refine ⟨w, ?_, hrenewed.cons⟩
    have hgive : give u number = some (f u) := hgive
    simp only [List.foldlM_cons, hgive, Option.map_some]
    exact hw

end

namespace ModuleSet

variable {s : ModuleSet} {u v : Fin s.size}

theorem getElem_bits (s : ModuleSet) (u : Fin s.size) :
    s.bits[u] = if (s.modules.get u).isSelfRegistering then .singleton (s.bitOrder.idxOf u) else ∅ := by
  simp [bits]

/-- What the first two passes find out is enough for the bit of every module. -/
theorem bitAt?_tally {number : Option ℕ}
    (h : (u, number) ∈ (List.finRange s.size).zip (tally s.modules.toList).numbers) :
    bitAt? (offsetsOf (tally s.modules.toList).counts).1 (s.modules.get u) number = some s.bits[u] := by
  have htally := counts_tally s.modules.toList
  obtain ⟨i, hi⟩ := List.mem_iff_getElem?.1 h
  obtain ⟨hu, hnumber⟩ := List.getElem?_zip_eq_some.1 hi
  obtain rfl : u.1 = i := by
    obtain ⟨_, rfl⟩ := List.getElem?_eq_some_iff.1 hu
    simp
  have hmodule : s.modules.toList[u.1]? = some (s.modules.get u) := by
    simp [Vector.get]
  rw [htally.getElem?_numbers, hmodule, Option.map_some, Option.some_inj] at hnumber
  subst hnumber
  rw [getElem_bits]
  by_cases hself : (s.modules.get u).isSelfRegistering = true
  · -- the module itself is counted, so that its category has bits
    have hcount : countIn s.modules.toList (s.modules.get u).category ≠ 0 := by
      rw [countIn, Ne, List.countP_eq_zero]
      intro hnone
      have := hnone _ (List.mem_of_getElem? hmodule)
      simp [hself] at this
    rw [← htally.getD_find?] at hcount
    obtain ⟨count, hfind⟩ : ∃ count, Sorted.find? (s.modules.get u).category
        (tally s.modules.toList).counts = some count := by
      rw [← Option.isSome_iff_exists, Option.isSome_iff_ne_none]
      intro hnone
      rw [hnone] at hcount
      exact hcount rfl
    rw [if_pos hself, if_pos hself, bitAt?, (find?_offsetsOf htally.ascending).2, hfind, Option.map_some,
      Option.map_some, htally.sumBelow_eq, idxOf_bitOrder hself]
  · rw [if_neg hself, if_neg hself, bitAt?]

/-- **The passes give each module its bit and leave all weights empty, whatever there is before.** -/
theorem layOutBits_eq (s : ModuleSet) (before : Weights s.size) :
    s.layOutBits before
      = some ⟨s.bits, Vector.replicate s.size ∅, Vector.replicate s.size ∅⟩ := by
  have hplaces : ((List.finRange s.size).zip (tally s.modules.toList).numbers).map Prod.fst
      = List.finRange s.size := by
    apply List.map_fst_zip
    simp [(counts_tally s.modules.toList).length]
  obtain ⟨w, hw, hrenewed⟩ := exists_renewed
    (fun u => bitAt? (offsetsOf (tally s.modules.toList).counts).1 (s.modules.get u)) (fun u => s.bits[u]) _
    (fun e he => bitAt?_tally he) before
  rw [layOutBits, hw]
  rw [hplaces] at hrenewed
  have hall (v : Fin s.size) : v ∈ List.finRange s.size := List.mem_finRange v
  obtain ⟨bits, dependents, compileDependents⟩ := w
  obtain rfl : bits = s.bits := Vector.ext fun i hi => by
    have := hrenewed.bits ⟨i, hi⟩
    rwa [if_pos (hall _)] at this
  obtain rfl : dependents = Vector.replicate s.size ∅ := Vector.ext fun i hi => by
    have := hrenewed.dependents ⟨i, hi⟩
    rw [if_pos (hall _)] at this
    rw [Vector.getElem_replicate]
    exact this
  obtain rfl : compileDependents = Vector.replicate s.size ∅ := Vector.ext fun i hi => by
    have := hrenewed.compileDependents ⟨i, hi⟩
    rw [if_pos (hall _)] at this
    rw [Vector.getElem_replicate]
    exact this
  rfl

/-! ### The bits as a whole -/

theorem length_bitOrder (s : ModuleSet) :
    s.bitOrder.length = s.modules.toList.countP ScriptModule.isSelfRegistering := by
  rw [bitOrder, (List.mergeSort_perm _ _).length_eq, ← List.countP_eq_length_filter, toList_modules,
    List.countP_map]
  rfl

theorem bijOn_idxOf_bitOrder (s : ModuleSet) :
    Set.BijOn (fun u => s.bitOrder.idxOf u) {u | (s.modules.get u).isSelfRegistering = true}
      (Set.Iio (s.modules.toList.countP ScriptModule.isSelfRegistering)) := by
  have hnodup : s.bitOrder.Nodup :=
    s.pairwise_bitOrder.imp fun {u v} (h : Sorted.Ahead _ u v) heq => by
      subst heq
      exact h.asymm h
  rw [← length_bitOrder]
  refine ⟨fun u hu => ?_, fun u hu v hv huv => ?_, fun i hi => ?_⟩
  · exact List.idxOf_lt_length_of_mem (mem_bitOrder.2 hu)
  · exact (List.idxOf_inj (mem_bitOrder.2 hu)).1 huv
  · have hi : i < s.bitOrder.length := hi
    exact ⟨s.bitOrder[i], mem_bitOrder.1 (List.getElem_mem hi), hnodup.idxOf_getElem i hi⟩

/-- **The bits of the self-registering modules are the numbers below the number of these modules, each of
them once, by the names of the categories and in the order of the modules within a category.  The other
modules have no bit, and all weights are empty.** -/
theorem layOutBits_spec (s : ModuleSet) (before : Weights s.size) :
    ∃ (w : Weights s.size) (bit : Fin s.size → ℕ), s.layOutBits before = some w ∧ w.bits = s.bits ∧
      (∀ u, w.bits[u] = if (s.modules.get u).isSelfRegistering then .singleton (bit u) else ∅) ∧
      Set.BijOn bit {u | (s.modules.get u).isSelfRegistering = true}
        (Set.Iio (s.modules.toList.countP ScriptModule.isSelfRegistering)) ∧
      (∀ u v, (s.modules.get u).isSelfRegistering = true → (s.modules.get v).isSelfRegistering = true →
        (bit u < bit v ↔ (s.modules.get u).category < (s.modules.get v).category ∨
          (s.modules.get u).category = (s.modules.get v).category ∧ u < v)) ∧
      w.dependents = Vector.replicate s.size ∅ ∧ w.compileDependents = Vector.replicate s.size ∅ := by
  refine ⟨_, fun u => s.bitOrder.idxOf u, s.layOutBits_eq before, rfl, s.getElem_bits,
    s.bijOn_idxOf_bitOrder, fun u v hu hv => ?_, rfl, rfl⟩
  rw [Sorted.idxOf_lt_idxOf_iff (fun _ _ => Sorted.Ahead.asymm) s.pairwise_bitOrder (mem_bitOrder.2 hu)
    (mem_bitOrder.2 hv), ahead_byCategory_iff]

end ModuleSet

end ScriptBundle
