/-!
# Results that may be faults

## Main definitions

* `Carries`: where one computation has a result, another one has a related result.

## Main results

* `bind_eq_ok_iff`, `map_eq_ok_iff`: when a computation in two parts has a result.
* `exists_of_toOption`, `exists_of_isSome`: a computation with a result, of which something is known.
* `foldlM_keeps`: what every step keeps, a sequence of steps keeps.
* `exists_step_of_foldlM_error`: a sequence of steps fails at one of them.
* `Carries.bind`, `carries_foldlM`: results are carried over step by step.
-/

namespace ScriptBundle

variable {ε : Type u} {α β : Type v} {x : Except ε α} {f : α → Except ε β} {b : β} {e : ε}

theorem bind_eq_ok_iff : x >>= f = .ok b ↔ ∃ a, x = .ok a ∧ f a = .ok b := by
  cases x with
  | error e => simp [Bind.bind, Except.bind]
  | ok a => simp [Bind.bind, Except.bind]

theorem bind_eq_error_iff :
    x >>= f = .error e ↔ x = .error e ∨ ∃ a, x = .ok a ∧ f a = .error e := by
  cases x with
  | error e => simp [Bind.bind, Except.bind]
  | ok a => simp [Bind.bind, Except.bind]

theorem map_eq_ok_iff {f : α → β} : x.map f = .ok b ↔ ∃ a, x = .ok a ∧ f a = b := by
  cases x with
  | error e => simp [Except.map]
  | ok a => simp [Except.map]

theorem map_eq_error_iff {f : α → β} : x.map f = .error e ↔ x = .error e := by
  cases x with
  | error e' => simp [Except.map]
  | ok a => simp [Except.map]

theorem toOption_eq_some_iff {a : α} : x.toOption = some a ↔ x = .ok a := by
  cases x with
  | error e => simp [Except.toOption]
  | ok a' => simp [Except.toOption]

/-- A computation of whose result something is known has a result. -/
theorem exists_of_toOption {f : α → β} (h : x.toOption.map f = some b) : ∃ a, x = .ok a ∧ f a = b := by
  obtain ⟨a, ha, hb⟩ := Option.map_eq_some_iff.1 h
  exact ⟨a, toOption_eq_some_iff.1 ha, hb⟩

theorem exists_of_isSome (h : x.toOption.isSome = true) : ∃ a, x = .ok a := by
  obtain ⟨a, ha⟩ := Option.isSome_iff_exists.1 h
  exact ⟨a, toOption_eq_some_iff.1 ha⟩

/-- What is done with a result is not done with a fault. -/
theorem map_ite_error (p : Prop) [Decidable p] (f : α → β) (e : ε) (a : α) :
    Except.map f (if p then .error e else .ok a) = if p then .error e else .ok (f a) := by
  split <;> rfl

/-- What every step keeps, a sequence of steps keeps. -/
theorem foldlM_keeps {P : β → Prop} {step : β → α → Except ε β} {as : List α}
    (hstep : ∀ b, ∀ a ∈ as, ∀ b', P b → step b a = .ok b' → P b') {b b' : β} (hb : P b)
    (h : as.foldlM step b = .ok b') : P b' := by
  induction as generalizing b with
  | nil =>
    obtain rfl := Except.ok.inj h
    exact hb
  | cons a as ih =>
    rw [List.foldlM_cons, bind_eq_ok_iff] at h
    obtain ⟨b₁, hb₁, hrest⟩ := h
    have htail : ∀ b, ∀ a ∈ as, ∀ b', P b → step b a = .ok b' → P b' :=
      fun b a ha => hstep b a (List.mem_cons_of_mem _ ha)
    exact ih htail (hstep b a List.mem_cons_self b₁ hb hb₁) hrest

/-- A sequence of steps fails at one of them. -/
theorem exists_step_of_foldlM_error {step : β → α → Except ε β} {as : List α}
    (h : as.foldlM step b = .error e) : ∃ a ∈ as, ∃ b, step b a = .error e := by
  induction as generalizing b with
  | nil => cases h
  | cons a as ih =>
    rw [List.foldlM_cons, bind_eq_error_iff] at h
    rcases h with h | ⟨b₁, -, h⟩
    · exact ⟨a, List.mem_cons_self, b, h⟩
    · obtain ⟨a', ha', hstep⟩ := ih h
      exact ⟨a', List.mem_cons_of_mem _ ha', hstep⟩

/-- Steps that are the same on the elements of a list give the same sequence of steps. -/
theorem foldlM_congr {step step' : β → α → Except ε β} {as : List α}
    (h : ∀ b, ∀ a ∈ as, step b a = step' b a) (b : β) : as.foldlM step b = as.foldlM step' b := by
  induction as generalizing b with
  | nil => rfl
  | cons a as ih =>
    have htail : ∀ b, ∀ a ∈ as, step b a = step' b a := fun b a ha => h b a (List.mem_cons_of_mem _ ha)
    rw [List.foldlM_cons, List.foldlM_cons, h b a List.mem_cons_self]
    exact congrArg _ (funext fun b => ih htail b)

theorem foldlM_flatMap {σ : Type v} (f : α → List β) (step : σ → β → Except ε σ) (as : List α) (s : σ) :
    (as.flatMap f).foldlM step s = as.foldlM (fun s a => (f a).foldlM step s) s := by
  induction as generalizing s with
  | nil => rfl
  | cons a as ih =>
    rw [List.flatMap_cons, List.foldlM_append, List.foldlM_cons]
    simp only [ih]

/-! ### Results that are carried over -/

section

variable {α' β' : Type v} {R : α → β → Prop} {S : α' → β' → Prop} {y : Except ε β}

/-- Where `x` has a result, `y` has a related one. -/
def Carries (R : α → β → Prop) (x : Except ε α) (y : Except ε β) : Prop :=
  ∀ a, x = .ok a → ∃ b, y = .ok b ∧ R a b

theorem carries_ok {a : α} {b : β} (h : R a b) : Carries R (.ok a : Except ε α) (.ok b) := by
  intro a' ha'
  rw [← Except.ok.inj ha']
  exact ⟨b, rfl, h⟩

theorem carries_refl (x : Except ε α) : Carries Eq x x := by
  intro a ha
  exact ⟨a, ha, rfl⟩

theorem Carries.bind {f : α → Except ε α'} {g : β → Except ε β'} (hx : Carries R x y)
    (hf : ∀ a b, R a b → Carries S (f a) (g b)) : Carries S (x >>= f) (y >>= g) := by
  intro a' ha'
  obtain ⟨a, ha, ha'⟩ := bind_eq_ok_iff.1 ha'
  obtain ⟨b, hb, hab⟩ := hx a ha
  obtain ⟨b', hb', hab'⟩ := hf a b hab a' ha'
  exact ⟨b', bind_eq_ok_iff.2 ⟨b, hb, hb'⟩, hab'⟩

theorem Carries.map {f : α → α'} {g : β → β'} (hx : Carries R x y)
    (hf : ∀ a b, R a b → S (f a) (g b)) : Carries S (x.map f) (y.map g) := by
  intro a' ha'
  obtain ⟨a, ha, rfl⟩ := map_eq_ok_iff.1 ha'
  obtain ⟨b, hb, hab⟩ := hx a ha
  exact ⟨g b, map_eq_ok_iff.2 ⟨b, hb, rfl⟩, hf a b hab⟩

/-- What each step of a sequence carries over, the sequence carries over. -/
theorem carries_foldlM {step : α → α' → Except ε α} {step' : β → α' → Except ε β}
    (hstep : ∀ a b t, R a b → Carries R (step a t) (step' b t)) (ts : List α') {a : α} {b : β} (h : R a b) :
    Carries R (ts.foldlM step a) (ts.foldlM step' b) := by
  induction ts generalizing a b with
  | nil => exact carries_ok h
  | cons t ts ih =>
    rw [List.foldlM_cons, List.foldlM_cons]
    apply Carries.bind (hstep a b t h)
    intro a b hab
    exact ih hab

end

end ScriptBundle
