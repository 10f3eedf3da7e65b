import ScriptBundle.Proofs.Script.Canonical
import ScriptBundle.Proofs.Survey.Finds
import ScriptBundle.Proofs.Survey.Unresolved

/-!
# How a closure grows

Each survey adds modules to a closure, and to the notes about unresolved ids.  A note goes when a module
with that id is found, and it never comes back.

## Main definitions

* `Closure.Consistent`: the modules have been read, and what is noted of an id without a module holds all
  declarations of it.
* `Closure.asked`: a closure that has asked for the pending ids.

## Main results

* `Consistent.add`: a survey adds its modules and keeps a closure consistent.
* `Consistent.mem_pending_iff`: the ids to ask for next are those that are declared, without a module, and
  not yet asked for.
* `outcome_extend_succ`: what follows a survey.
* `extend_induction`: **what each survey keeps, holds at the end, and then there is nothing to ask for.**
* `outcome_extend_eq`: where each survey finds the same on two file systems, so does the whole closure.
-/

namespace ScriptBundle.Closure

open BundleAccess Survey

variable {c : Convention} {fs : FileSystem} {dir : Path} {k k' : Closure} {request : Request}
  {found : Survey} {modules : ModuleMap} {notes : UnresolvedMap} {id : ModuleId}

/-- There is a key of a module id if there is a module with this key. -/
theorem hasKey_numbered_iff :
    k.hasKey (.numbered id) = true ↔ ∃ m, (.numbered id, m) ∈ k.modules := by
  rw [hasKey, Sorted.contains_iff]
  constructor
  · rintro ⟨⟨key, m⟩, hm, hcompare⟩
    obtain rfl := ModuleKey.compare_numbered.1 (Std.OrientedCmp.eq_symm hcompare)
    exact ⟨m, hm⟩
  · rintro ⟨m, hm⟩
    exact ⟨_, hm, Std.ReflCmp.compare_self⟩

/-! ### Taking in modules -/

theorem hasKey_addModule {e : ModuleKey × ScriptModule} {key : ModuleKey}
    (hne : compare key e.1 ≠ .eq) : (k.addModule e).hasKey key = k.hasKey key := by
  unfold hasKey addModule
  exact contains_congr (Sorted.find?_insert_of_ne hne)

/-- New modules are put between those that are there. -/
theorem modules_foldl_addModule (hk : Sorted.Ascending k.modules) (hmodules : Sorted.Ascending modules)
    (hnew : ∀ e ∈ modules, k.hasKey e.1 = false) :
    Sorted.Ascending (modules.foldl addModule k).modules ∧
      ∀ e, e ∈ (modules.foldl addModule k).modules ↔ e ∈ k.modules ∨ e ∈ modules := by
  induction modules generalizing k with
  | nil => simp [hk]
  | cons e modules ih =>
    obtain ⟨hlt, hmodules⟩ := List.pairwise_cons.1 hmodules
    have hrest : ∀ e' ∈ modules, (k.addModule e).hasKey e'.1 = false := by
      intro e' he'
      have hne : compare e'.1 e.1 ≠ .eq := by
        rw [Std.OrientedCmp.gt_of_lt (hlt e' he')]
        exact Ordering.noConfusion
      rw [hasKey_addModule hne, hnew e' (List.mem_cons_of_mem _ he')]
    obtain ⟨hascending, hmem⟩ := ih (k := k.addModule e) (Sorted.ascending_insert hk) hmodules hrest
    refine ⟨hascending, fun e' => ?_⟩
    have hinsert : e' ∈ (k.addModule e).modules ↔ e' = e ∨ e' ∈ k.modules :=
      Sorted.mem_insert_of_contains (hnew e List.mem_cons_self) e'
    rw [List.foldl_cons, hmem, hinsert, List.mem_cons, or_comm (a := e' = e), or_assoc]

/-- A note goes when a module with that id is taken in. -/
theorem find?_unresolved_addModule (e : ModuleKey × ScriptModule) :
    Sorted.find? id (k.addModule e).unresolved
      = if (compare (ModuleKey.numbered id) e.1).isEq then none else Sorted.find? id k.unresolved := by
  obtain ⟨key, m⟩ := e
  cases key with
  | file path => rfl
  | numbered id' =>
    refine (Sorted.find?_erase id id' k.unresolved).trans ?_
    have hiff : compare id id' = .eq
        ↔ (compare (ModuleKey.numbered id) (.numbered id')).isEq = true := Ordering.isEq_iff_eq_eq.symm
    by_cases h : compare id id' = .eq
    · rw [if_pos h, if_pos (hiff.1 h)]
    · rw [if_neg h, if_neg (h ∘ hiff.2)]

theorem find?_unresolved_foldl_addModule :
    Sorted.find? id (modules.foldl addModule k).unresolved
      = if Sorted.contains (.numbered id) modules then none else Sorted.find? id k.unresolved := by
  induction modules generalizing k with
  | nil => rfl
  | cons e modules ih =>
    have hcontains : Sorted.contains (.numbered id) (e :: modules)
        = ((compare (ModuleKey.numbered id) e.1).isEq || Sorted.contains (.numbered id) modules) := by
      rw [Sorted.contains, Sorted.contains, Sorted.find?_cons]
      cases (compare (ModuleKey.numbered id) e.1).isEq <;> rfl
    rw [List.foldl_cons, ih, find?_unresolved_addModule, hcontains]
    cases (compare (ModuleKey.numbered id) e.1).isEq <;>
      cases Sorted.contains (.numbered id) modules <;> rfl

theorem ascending_unresolved_foldl_addModule (hk : Sorted.Ascending k.unresolved) :
    Sorted.Ascending (modules.foldl addModule k).unresolved := by
  refine List.foldlRecOn (motive := fun k : Closure => Sorted.Ascending k.unresolved) modules _ hk
    fun k hk e _ => ?_
  obtain ⟨key, m⟩ := e
  cases key with
  | file path => exact hk
  | numbered id => exact Sorted.ascending_erase hk id

/-! ### Taking in notes -/

/-- Taking in notes leaves the modules alone. -/
theorem modules_foldl_addUnresolved :
    (notes.foldl addUnresolved k).modules = k.modules := by
  refine List.foldlRecOn (motive := fun k' : Closure => k'.modules = k.modules) notes _ rfl fun k' hk' e _ => ?_
  exact hk'

theorem ascending_unresolved_foldl_addUnresolved (hk : Sorted.Ascending k.unresolved) :
    Sorted.Ascending (notes.foldl addUnresolved k).unresolved :=
  List.foldlRecOn (motive := fun k : Closure => Sorted.Ascending k.unresolved) notes _ hk
    fun _ hk _ _ => Sorted.ascending_insert hk

/-- Two notes about an id, if there are two. -/
def joined (note new : Option Unresolved) : Option Unresolved :=
  match new with
  | none => note
  | some u => some (note.elim u fun u' => u'.merge u)

theorem find?_addUnresolved (e : ModuleId × Unresolved) :
    Sorted.find? id (k.addUnresolved e).unresolved
      = if id = e.1 then joined (Sorted.find? id k.unresolved) (some e.2)
        else Sorted.find? id k.unresolved := by
  unfold addUnresolved
  dsimp only
  by_cases h : id = e.1
  · rw [if_pos h, h, Sorted.find?_insert_self, joined]
  · rw [if_neg h, Sorted.find?_insert_of_ne (h ∘ Std.LawfulEqCmp.eq_of_compare)]

theorem find?_foldl_addUnresolved (hnotes : Sorted.Ascending notes) :
    Sorted.find? id (notes.foldl addUnresolved k).unresolved
      = joined (Sorted.find? id k.unresolved) (Sorted.find? id notes) := by
  induction notes generalizing k with
  | nil => rfl
  | cons e notes ih =>
    obtain ⟨hlt, hnotes⟩ := List.pairwise_cons.1 hnotes
    rw [List.foldl_cons, ih hnotes, find?_addUnresolved, Sorted.find?_cons]
    by_cases h : id = e.1
    · -- the other notes are about other ids
      have hnone : Sorted.find? id notes = none := by
        rw [Sorted.find?_eq_none_iff, h]
        intro e' he' heq
        rw [hlt e' he'] at heq
        cases heq
      have hself : (compare id e.1).isEq = true := by
        rw [h, Ordering.isEq_iff_eq_eq]
        exact Std.ReflCmp.compare_self
      rw [if_pos h, if_pos hself, hnone, joined]
    · have hne : ¬ (compare id e.1).isEq = true := fun heq =>
        h (Std.LawfulEqCmp.eq_of_compare (Ordering.isEq_iff_eq_eq.1 heq))
      rw [if_neg h, if_neg hne]

/-! ### Taking in a survey -/

/-- The modules have been read, and what is noted of an id without a module holds all declarations of
it. -/
structure Consistent (c : Convention) (k : Closure) : Prop where
  modules : Sorted.Ascending k.modules
  unresolved : Sorted.Ascending k.unresolved
  key : ∀ e ∈ k.modules, e.2.key = e.1
  speaks : ∀ e ∈ k.modules, SpeaksForItself c e.2
  resolved : ∀ id, k.hasKey (.numbered id) = true → Sorted.find? id k.unresolved = none
  noted : ∀ id, k.hasKey (.numbered id) = false →
    Noted (DeclaredBy k.modules id) (Sorted.find? id k.unresolved)

/-- The modules of a closure have the keys under which they are there. -/
theorem Consistent.map_key_values (hk : k.Consistent c) :
    (Sorted.values k.modules).map ScriptModule.key = Sorted.keys k.modules := by
  rw [Sorted.values, List.map_map]
  exact List.map_congr_left hk.key

theorem consistent_empty : Consistent c {} := by
  constructor
  · exact List.Pairwise.nil
  · exact List.Pairwise.nil
  · exact fun e he => absurd he List.not_mem_nil
  · exact fun e he => absurd he List.not_mem_nil
  · exact fun id _ => rfl
  · intro id _
    have hnone : DeclaredBy [] id = fun _ _ => False := by
      funext key kind
      simp [DeclaredBy]
    rw [hnone]
    exact noted_none

theorem noted_joined {declares declares' : ModuleKey → DependencyKind → Prop}
    {note new : Option Unresolved} (h : Noted declares note) (hnew : Noted declares' new)
    (hapart : KeysApart fun key kind => declares key kind ∨ declares' key kind) :
    Noted (fun key kind => declares key kind ∨ declares' key kind) (joined note new) := by
  cases new with
  | none =>
    have heq : (fun key kind => declares key kind ∨ declares' key kind) = declares := by
      funext key kind
      rw [or_iff_left fun hd => hnew.not_declares hd]
    rwa [heq, joined]
  | some u =>
    cases note with
    | none =>
      have heq : (fun key kind => declares key kind ∨ declares' key kind) = declares' := by
        funext key kind
        rw [or_iff_right fun hd => h.not_declares hd]
      rwa [heq, joined]
    | some u' => exact noted_merge h hnew hapart

/-- The modules of a closure that has taken in a survey. -/
theorem Consistent.modules_add (hk : k.Consistent c)
    (h : outcome fs (survey c k.hasKey request) = .ok found) :
    Sorted.Ascending (k.add found).modules ∧
      ∀ e, e ∈ (k.add found).modules ↔ e ∈ k.modules ∨ e ∈ found.modules := by
  have hread := readAnew_modulesOf (modulesOf_of_survey h).1
  rw [Closure.add, modules_foldl_addUnresolved]
  exact modules_foldl_addModule hk.modules hread.ascending hread.new

theorem Consistent.hasKey_add (hk : k.Consistent c)
    (h : outcome fs (survey c k.hasKey request) = .ok found) (key : ModuleKey) :
    (k.add found).hasKey key = (k.hasKey key || Sorted.contains key found.modules) := by
  rw [Bool.eq_iff_iff, Bool.or_eq_true]
  unfold hasKey
  rw [Sorted.contains_iff, Sorted.contains_iff, Sorted.contains_iff]
  simp only [(hk.modules_add h).2, or_and_right, exists_or]

/-- A survey keeps a closure consistent. -/
theorem Consistent.add (hk : k.Consistent c)
    (h : outcome fs (survey c k.hasKey request) = .ok found) : (k.add found).Consistent c := by
  obtain ⟨hmodules, hunresolved⟩ := modulesOf_of_survey h
  have hread := readAnew_modulesOf hmodules
  obtain ⟨hascending, hmem⟩ := hk.modules_add h
  have hpresent : found.unresolved = unresolvedOf (k.add found).hasKey found.modules := by
    rw [hunresolved, funext (hk.hasKey_add h)]
  have hnotes : Sorted.Ascending found.unresolved := by
    rw [hpresent]
    exact ascending_unresolvedOf
  have hfind (id : ModuleId) : Sorted.find? id (k.add found).unresolved
      = joined (if Sorted.contains (.numbered id) found.modules then none
          else Sorted.find? id k.unresolved) (Sorted.find? id found.unresolved) := by
    rw [Closure.add, find?_foldl_addUnresolved hnotes, find?_unresolved_foldl_addModule]
  constructor
  · exact hascending
  · exact ascending_unresolved_foldl_addUnresolved (ascending_unresolved_foldl_addModule hk.unresolved)
  · intro e he
    exact ((hmem e).1 he).elim (hk.key e) (hread.key e)
  · intro e he
    exact ((hmem e).1 he).elim (hk.speaks e) (hread.speaks e)
  · intro id hid
    have hnone : Sorted.find? id found.unresolved = none := by
      rw [hpresent]
      exact find?_unresolvedOf_of_present hid
    rw [hfind, hnone, joined]
    rw [hk.hasKey_add h, Bool.or_eq_true] at hid
    rcases hid with hold | hfound
    · rw [hk.resolved id hold, ite_self]
    · rw [if_pos hfound]
  · intro id hid
    have hnoted' : Noted (DeclaredBy found.modules id) (Sorted.find? id found.unresolved) := by
      rw [hpresent]
      exact noted_unresolvedOf hid hread.ascending
    rw [hk.hasKey_add h, Bool.or_eq_false_iff] at hid
    have heq : DeclaredBy (k.add found).modules id
        = fun key kind => DeclaredBy k.modules id key kind ∨ DeclaredBy found.modules id key kind := by
      funext key kind
      unfold DeclaredBy
      simp only [hmem, or_and_right, exists_or]
    have hapart := keysApart_declaredBy hascending id
    rw [hfind, hid.2, if_neg Bool.false_ne_true, heq]
    rw [heq] at hapart
    exact noted_joined (hk.noted id hid.1) hnoted' hapart

/-! ### Asking for ids -/

/-- The closure when the pending ids are asked for. -/
def asked (k : Closure) : Closure := { k with requested := k.requested ++ k.pending }

theorem requested_add (k : Closure) (found : Survey) : (k.add found).requested = k.requested := by
  have hmodules (k : Closure) : (found.modules.foldl addModule k).requested = k.requested :=
    List.foldlRecOn (motive := fun k' : Closure => k'.requested = k.requested) found.modules _ rfl
      fun _ hk' _ _ => hk'
  have hnotes (k : Closure) : (found.unresolved.foldl addUnresolved k).requested = k.requested :=
    List.foldlRecOn (motive := fun k' : Closure => k'.requested = k.requested) found.unresolved _ rfl
      fun _ hk' _ _ => hk'
  rw [add, hnotes, hmodules]

/-- The ids to ask for next are those that are declared, without a module, and not yet asked for. -/
theorem Consistent.mem_pending_iff (hk : k.Consistent c) :
    id ∈ k.pending ↔ k.hasKey (.numbered id) = false ∧
      (∃ key kind, DeclaredBy k.modules id key kind) ∧ id ∉ k.requested := by
  have hrequested : (!k.requested.contains id) = true ↔ id ∉ k.requested := by
    rw [Bool.not_eq_true', ← Bool.not_eq_true, List.contains_iff_mem]
  rw [pending, List.mem_filter, Sorted.mem_keys_iff, hrequested, ← and_assoc]
  refine and_congr_left fun _ => ?_
  rw [Sorted.contains]
  cases hkey : k.hasKey (.numbered id) with
  | true => simp [hk.resolved id hkey]
  | false => simp [(hk.noted id hkey).isSome]

/-- A survey is the last one if it leaves nothing to ask for; otherwise the pending ids are asked for. -/
theorem outcome_extend_succ (limit : Nat) : outcome fs (extend c dir (limit + 1) k request) = (do
    let found ← outcome fs (survey c k.hasKey request)
    if (k.add found).pending = [] then return k.add found
    else outcome fs (extend c dir limit (k.add found).asked (.ofIds dir (k.add found).pending))) := by
  rw [extend, outcome_bind]
  refine congrArg _ (funext fun found => ?_)
  dsimp only
  cases hpending : (k.add found).pending with
  | nil =>
    rw [if_pos rfl]
    rfl
  | cons id ids => rw [if_neg (List.cons_ne_nil id ids), asked, hpending]

/-- What each survey keeps, holds at the end, and then there is nothing to ask for. -/
theorem extend_induction {P : Closure → Prop} {limit : Nat}
    (hstep : ∀ k found, P k → outcome fs (survey c k.hasKey (.ofIds dir k.pending)) = .ok found →
      P (k.asked.add found))
    (hfirst : ∀ found, outcome fs (survey c k.hasKey request) = .ok found → P (k.add found))
    (h : outcome fs (extend c dir limit k request) = .ok k') : P k' ∧ k'.pending = [] := by
  induction limit generalizing k request with
  | zero => cases h
  | succ limit ih =>
    rw [outcome_extend_succ, bind_eq_ok_iff] at h
    obtain ⟨found, hfound, h⟩ := h
    have hP := hfirst found hfound
    by_cases hpending : (k.add found).pending = []
    · rw [if_pos hpending] at h
      obtain rfl := Except.ok.inj h
      exact ⟨hP, hpending⟩
    · rw [if_neg hpending] at h
      -- the survey for the pending ids is the first one of what remains
      exact ih (fun found' => hstep (k.add found) found' hP) h

/-- Where each survey finds the same on two file systems, so does the whole closure. -/
theorem outcome_extend_eq {fs' : FileSystem} {P : Closure → Prop} {limit : Nat}
    (hsame : ∀ k, P k → outcome fs' (survey c k.hasKey (.ofIds dir k.pending))
      = outcome fs (survey c k.hasKey (.ofIds dir k.pending)))
    (hstep : ∀ k found, P k → outcome fs (survey c k.hasKey (.ofIds dir k.pending)) = .ok found →
      P (k.asked.add found))
    (hsame_first : outcome fs' (survey c k.hasKey request) = outcome fs (survey c k.hasKey request))
    (hfirst : ∀ found, outcome fs (survey c k.hasKey request) = .ok found → P (k.add found)) :
    outcome fs' (extend c dir limit k request) = outcome fs (extend c dir limit k request) := by
  induction limit generalizing k request with
  | zero => rfl
  | succ limit ih =>
    rw [outcome_extend_succ, outcome_extend_succ, hsame_first]
    cases hfound : outcome fs (survey c k.hasKey request) with
    | error failure => rfl
    | ok found =>
      have hP := hfirst found hfound
      dsimp only [Bind.bind, Except.bind]
      have hrest := @ih (k.add found).asked (.ofIds dir (k.add found).pending) (hsame _ hP)
        fun found' => hstep (k.add found) found' hP
      rw [hrest]

end ScriptBundle.Closure
