/-!
# Places

Modules are named by their places `Fin n`.  A vector with an entry for each place is read at places, and
an entry is read in the same way whether a place or its number is given.  Facts about such vectors, and
about counting places.

## Main results

* `getElem_place`: reading a vector at a place is reading it at its number.
* `getElem_set_place`: the entries of a vector when one of them has been changed.
* `countP_lt`: a test that holds less often, and somewhere not where the other does, counts less.
* `countP_eq_add`: tests that differ at one element only.
* `nodup_places`: the places of a list are different.
-/

namespace ScriptBundle

/-- A vector with an entry for each place has one for every place. -/
instance instGetElemPlace : GetElem (Vector α n) (Fin n) α fun _ _ => True where
  getElem xs u _ := xs.get u

@[simp] theorem getElem_place (xs : Vector α n) (u : Fin n) : xs[u] = xs[u.1] := rfl

theorem getElem_set_place {n : Nat} (xs : Vector α n) (u v : Fin n) (a : α) :
    (xs.set u a u.isLt)[v] = if v = u then a else xs[v] := by
  by_cases h : v = u
  · subst h
    simp
  · have : u.1 ≠ v.1 := fun he => h (Fin.ext he.symm)
    simp [h, this]

/-- A vector of which one entry has been corrected. -/
theorem getElem_set_of_forall {n : Nat} {xs : Vector α n} {f : Fin n → α} {u : Fin n} {a : α}
    (hu : a = f u) (h : ∀ v : Fin n, v ≠ u → xs[v] = f v) (v : Fin n) : (xs.set u a u.isLt)[v] = f v := by
  rw [getElem_set_place]
  by_cases hv : v = u
  · rw [if_pos hv, hu, hv]
  · rw [if_neg hv, h v hv]

/-- A test that holds less often, and somewhere not where the other does, counts less. -/
theorem countP_lt {p q : α → Bool} {l : List α} (hpq : ∀ a ∈ l, p a = true → q a = true)
    {a : α} (ha : a ∈ l) (hp : p a = false) (hq : q a = true) : l.countP p < l.countP q := by
  induction l with
  | nil => simp at ha
  | cons b l ih =>
    have hle : l.countP p ≤ l.countP q :=
      List.countP_mono_left fun c hc => hpq c (List.mem_cons_of_mem _ hc)
    have hb := hpq b List.mem_cons_self
    rw [List.countP_cons, List.countP_cons]
    rcases List.mem_cons.1 ha with rfl | ha
    · simp [hp, hq]
      omega
    · have := ih (fun c hc => hpq c (List.mem_cons_of_mem _ hc)) ha
      cases hpb : p b
      · simp
        omega
      · simp [hb hpb, this]

/-- Two tests that agree except at one element, where the second one fails. -/
theorem countP_eq_add {p q : α → Bool} {l : List α} (hl : l.Nodup) {a : α} (ha : a ∈ l)
    (hpq : ∀ b, b ≠ a → p b = q b) (hq : q a = false) :
    l.countP p = l.countP q + if p a then 1 else 0 := by
  induction l with
  | nil => simp at ha
  | cons b l ih =>
    obtain ⟨hb, hl⟩ := List.nodup_cons.1 hl
    rw [List.countP_cons, List.countP_cons]
    rcases List.mem_cons.1 ha with rfl | ha
    · have : l.countP p = l.countP q :=
        List.countP_congr fun c hc => by rw [hpq c (by rintro rfl; exact hb hc)]
      simp [this, hq]
    · have hne : b ≠ a := by rintro rfl; exact hb ha
      rw [ih hl ha, hpq b hne]
      omega

theorem nodup_places (n : Nat) : (List.finRange n).Nodup := by
  rw [List.Nodup, List.pairwise_iff_getElem]
  intro i j hi hj hij he
  have := congrArg Fin.val he
  simp at this
  omega

end ScriptBundle
