import Mathlib.Data.List.Nodup
import Mathlib.Data.List.Perm.Subperm
import ScriptBundle.Proofs.Closure.Discovered

/-!
# When closures are formed

A closure is formed survey by survey.  Each survey but the last one finds a module, so that there are not
more surveys than modules, and one.  If whatever the modules declare can be looked for, then no survey
fails, and the closure is formed unless there are more surveys than are allowed.

## Main definitions

* `Searchable`: whatever is declared by the modules that a request leads to can be looked for.

## Main results

* `searchable_of_extend`: if a closure is formed, then whatever its modules declare can be looked for.
* `exists_extend`: **if whatever is declared can be looked for, and there are fewer modules than surveys are
  allowed, then the closure is formed.**
-/

namespace ScriptBundle

open BundleAccess Survey

variable {c : Convention} {fs : FileSystem} {request : Request} {id : ModuleId} {k : Closure}
  {found : Survey} {limit bound : Nat}

/-- Whatever is declared by the modules that a request leads to can be looked for, unless the request itself
finds it. -/
def Searchable (c : Convention) (fs : FileSystem) (request : Request) : Prop :=
  ∀ m, Discovered c fs request m → ∀ kind id, (kind, id) ∈ m.declared →
    (∀ seed, Seeds c fs request seed → seed.key ≠ .numbered id) →
      ∃ result, moduleOf c fs request.directory id = .ok result

namespace Closure

/-! ### Each survey finds a module -/

theorem Consistent.nodup_modules (hk : k.Consistent c) : k.modules.Nodup := by
  have hkeys : (k.modules.map Prod.fst).Nodup := hk.modules.nodup_keys
  exact List.Nodup.of_map _ hkeys

/-- What a survey finds makes a closure longer. -/
theorem Consistent.length_lt_add (hk : k.Consistent c)
    (h : outcome fs (survey c k.hasKey request) = .ok found) (hfound : found.modules ≠ []) :
    k.modules.length < (k.add found).modules.length := by
  obtain ⟨e, he⟩ := List.exists_mem_of_ne_nil _ hfound
  obtain ⟨-, hmem⟩ := hk.modules_add h
  have hnew : e ∉ k.modules := by
    intro hold
    have hunknown := (readAnew_modulesOf (modulesOf_of_survey h).1).new e he
    rw [hasKey, Sorted.contains_eq_false_iff] at hunknown
    exact hunknown e hold Std.ReflCmp.compare_self
  have hnodup : (e :: k.modules).Nodup := List.nodup_cons.2 ⟨hnew, hk.nodup_modules⟩
  have hsub : e :: k.modules ⊆ (k.add found).modules := by
    intro e' he'
    rw [hmem]
    rcases List.mem_cons.1 he' with rfl | he'
    · exact .inr he
    · exact .inl he'
  exact (List.subperm_of_subset hnodup hsub).length_le

/-- If a survey for the pending ids finds nothing, then there is nothing more to ask for. -/
theorem Explored.pending_add_eq_nil (hk : Explored c fs request k)
    (h : outcome fs (survey c k.hasKey (.ofIds request.directory k.pending)) = .ok found)
    (hfound : found.modules = []) : (k.asked.add found).pending = [] := by
  obtain ⟨-, hmem⟩ := hk.asked.modules_add h
  rw [List.eq_nil_iff_forall_not_mem]
  intro id hid
  obtain ⟨hnew, ⟨key, kind, m, hm, hdeclared⟩, hrequested⟩ := (hk.add h).consistent.mem_pending_iff.1 hid
  rw [hk.asked.hasKey_add h, Bool.or_eq_false_iff] at hnew
  have hold : (key, m) ∈ k.modules := by
    rw [hmem, hfound] at hm
    exact hm.resolve_right List.not_mem_nil
  rw [requested_add] at hrequested
  -- the id was pending before, so that it has been asked for
  apply hrequested
  rw [Closure.asked, List.mem_append]
  by_cases hasked : id ∈ k.requested
  · exact .inl hasked
  · exact .inr (hk.consistent.mem_pending_iff.2 ⟨hnew.1, ⟨key, kind, m, hold, hdeclared⟩, hasked⟩)

/-- If the request finds nothing, then there is nothing to ask for. -/
theorem pending_first_eq_nil (h : outcome fs (survey c (hasKey {}) request) = .ok found)
    (hfound : found.modules = []) : (({} : Closure).add found).pending = [] := by
  obtain ⟨-, hmem⟩ := consistent_empty.modules_add h
  rw [List.eq_nil_iff_forall_not_mem]
  intro id hid
  obtain ⟨-, ⟨key, kind, m, hm, -⟩, -⟩ := (explored_first h).consistent.mem_pending_iff.1 hid
  rw [hmem, hfound] at hm
  rcases hm with hm | hm
  · cases hm
  · cases hm

/-! ### No survey fails -/

/-- If whatever is declared can be looked for, then the pending ids can be surveyed. -/
theorem Explored.exists_survey (hk : Explored c fs request k) (hsearch : Searchable c fs request) :
    ∃ found, outcome fs (survey c k.hasKey (.ofIds request.directory k.pending)) = .ok found := by
  have hids : ∀ id ∈ k.pending, id.IsCanonical c := fun id => hk.isCanonical_of_mem_pending
  have hnew : ∀ id ∈ k.pending, k.hasKey (.numbered id) = false :=
    fun id hid => (hk.consistent.mem_pending_iff.1 hid).1
  rw [survey, outcome_bind]
  cases hmodules : outcome fs (modulesOf c k.hasKey (.ofIds request.directory k.pending)) with
  | ok modules => exact ⟨_, rfl⟩
  | error failure =>
    obtain ⟨id, hid, hfailure⟩ := exists_of_modulesOf_error hids hnew hmodules
    obtain ⟨-, ⟨key, kind, m, hm, hdeclared⟩, -⟩ := hk.consistent.mem_pending_iff.1 hid
    obtain ⟨result, hresult⟩ := hsearch m (hk.discovered _ hm) kind id hdeclared
      (hk.key_ne_of_seeds (hnew id hid))
    rw [hresult] at hfailure
    cases hfailure

/-- The surveys that are left are enough, if the first of them leaves nothing to ask for, or if there is one
for each module that is still to be found and one more. -/
theorem exists_extend_of_survey {r : Request} (hsearch : Searchable c fs request)
    (hbound : ∀ k, Explored c fs request k → k.modules.length ≤ bound)
    (hfound : outcome fs (survey c k.hasKey r) = .ok found) (hk : Explored c fs request (k.add found))
    (hlimit : (k.add found).pending = [] ∧ 0 < limit ∨ bound + 2 ≤ limit + (k.add found).modules.length) :
    ∃ k', outcome fs (extend c request.directory limit k r) = .ok k' := by
  induction limit generalizing k r found with
  | zero =>
    have hlength := hbound _ hk
    omega
  | succ limit ih =>
    rw [outcome_extend_succ, hfound]
    dsimp only [Bind.bind, Except.bind]
    by_cases hpending : (k.add found).pending = []
    · rw [if_pos hpending]
      exact ⟨_, rfl⟩
    · obtain ⟨found', hfound'⟩ := hk.exists_survey hsearch
      have hroom : bound + 2 ≤ limit + 1 + (k.add found).modules.length :=
        hlimit.resolve_left fun hnil => hpending hnil.1
      rw [if_neg hpending]
      apply ih (k := (k.add found).asked) hfound' (hk.add hfound')
      by_cases hempty : found'.modules = []
      · have hlength := hbound _ hk
        exact .inl ⟨hk.pending_add_eq_nil hfound' hempty, by omega⟩
      · have hlonger : (k.add found).modules.length < _ := hk.asked.length_lt_add hfound' hempty
        exact .inr (by omega)

/-- **If whatever is declared can be looked for, and there are fewer modules than surveys are allowed, then the
closure is formed.** -/
theorem exists_extend (hfirst : ∃ found, outcome fs (survey c (hasKey {}) request) = .ok found)
    (hsearch : Searchable c fs request)
    (hbound : ∀ k, Explored c fs request k → k.modules.length ≤ bound) (hlimit : bound < limit) :
    ∃ k, outcome fs (extend c request.directory limit {} request) = .ok k := by
  obtain ⟨found, hfound⟩ := hfirst
  apply exists_extend_of_survey hsearch hbound hfound (explored_first hfound)
  by_cases hempty : found.modules = []
  · exact .inl ⟨pending_first_eq_nil hfound hempty, by omega⟩
  · have hlonger := (consistent_empty (c := c)).length_lt_add hfound hempty
    exact .inr (by omega)

/-! ### What a closure says -/

/-- If a closure is formed, then whatever its modules declare can be looked for. -/
theorem searchable_of_extend (h : outcome fs (extend c request.directory limit {} request) = .ok k) :
    Searchable c fs request := by
  obtain ⟨hk, hpending⟩ := explored_of_extend h
  intro m hm kind id hdeclared hseeds
  have hdeclaredBy : DeclaredBy k.modules id m.key kind :=
    ⟨m, hk.mem_modules ((hk.mem_iff hpending).2 hm), hdeclared⟩
  cases hkey : k.hasKey (.numbered id) with
  | true =>
    obtain ⟨m', -, hfound⟩ := hk.exists_finds hseeds hkey
    exact ⟨_, (finds_iff (hk.isCanonical hdeclaredBy)).1 hfound⟩
  | false => exact ⟨_, hk.moduleOf_eq_none hpending hdeclaredBy hkey⟩

end Closure

end ScriptBundle
