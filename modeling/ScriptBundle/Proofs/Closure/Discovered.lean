import ScriptBundle.Proofs.Closure.Growth

/-!
# The modules that a request leads to

A request finds some modules itself, and the ids that modules declare lead on to others.  The closure of
a request holds exactly these modules.

## Main definitions

* `Survey.Seeds`: a survey for the request finds a module.
* `Discovered`: a request leads to a module.
* `Closure.Explored`: what holds of the closure of a request after each survey.

## Main results

* `explored_first`, `Explored.add`: what the first survey establishes, the others keep.
* `explored_of_extend`: **the closure of a request holds what it leads to.**
-/

namespace ScriptBundle

open BundleAccess Survey

/-- A survey for the request finds a module. -/
def Survey.Seeds (c : Convention) (fs : FileSystem) (request : Request) (m : ScriptModule) : Prop :=
  ∃ found, outcome fs (survey c (fun _ => false) request) = .ok found ∧ (m.key, m) ∈ found.modules

/-- A request leads to the modules that it finds itself, and to those that are found for the ids that
they declare, unless the request itself finds a module with this id. -/
inductive Discovered (c : Convention) (fs : FileSystem) (request : Request) : ScriptModule → Prop
  | seed {m : ScriptModule} (h : Seeds c fs request m) : Discovered c fs request m
  | declared {m found : ScriptModule} {kind : DependencyKind} {id : ModuleId}
      (hm : Discovered c fs request m) (hdeclared : (kind, id) ∈ m.declared)
      (hseeds : ∀ seed, Seeds c fs request seed → seed.key ≠ .numbered id)
      (hfound : Finds c fs request.directory id found) : Discovered c fs request found

variable {c : Convention} {fs : FileSystem} {request : Request} {id : ModuleId} {m : ScriptModule}
  {k : Closure} {found : Survey}

/-- Each module that a request leads to has been read from its source. -/
theorem Discovered.speaksForItself (hm : Discovered c fs request m) : SpeaksForItself c m := by
  have hread {r : Request} {key : ModuleKey} {found : Survey}
      (h : outcome fs (survey c (fun _ => false) r) = .ok found) (hm : (key, m) ∈ found.modules) :
      SpeaksForItself c m :=
    (readAnew_modulesOf (modulesOf_of_survey h).1).speaks (key, m) hm
  cases hm with
  | seed hseed =>
    obtain ⟨found, hfound, hm⟩ := hseed
    exact hread hfound hm
  | declared _ _ _ hfinds =>
    obtain ⟨found, hfound, hm⟩ := hfinds
    exact hread hfound hm

/-- Each module that a request leads to is called by its category and number, apart from a requested file. -/
theorem Discovered.named (hm : Discovered c fs request m) : Named request m := by
  cases hm with
  | seed hseed =>
    obtain ⟨found, hfound, hm⟩ := hseed
    exact named_modulesOf (modulesOf_of_survey hfound).1 _ hm
  | declared _ _ _ hfinds =>
    obtain ⟨found, hfound, hm⟩ := hfinds
    -- no file is requested if it is asked for an id
    cases named_modulesOf (modulesOf_of_survey hfound).1 _ hm with
    | numbered hnumber hkey => exact .numbered hnumber hkey
    | requested _ _ hrequest => cases hrequest

namespace Closure

/-- What holds of the closure of a request after each survey: it has what the request finds, it has
nothing else than what the request leads to, and what was asked for and is not there cannot be found. -/
structure Explored (c : Convention) (fs : FileSystem) (request : Request) (k : Closure) : Prop where
  consistent : k.Consistent c
  seeds : ∀ m, Seeds c fs request m → (m.key, m) ∈ k.modules
  discovered : ∀ e ∈ k.modules, Discovered c fs request e.2
  requested : ∀ id ∈ k.requested, k.hasKey (.numbered id) = false →
    moduleOf c fs request.directory id = .ok none

theorem explored_first
    (h : outcome fs (survey c (hasKey {}) request) = .ok found) :
    Explored c fs request (({} : Closure).add found) := by
  obtain ⟨-, hmem⟩ := consistent_empty.modules_add h
  have hread := readAnew_modulesOf (modulesOf_of_survey h).1
  constructor
  · exact consistent_empty.add h
  · rintro m ⟨found', hfound', hm⟩
    obtain rfl := Except.ok.inj (hfound'.symm.trans h)
    exact (hmem _).2 (.inr hm)
  · intro e he
    have hfound : e ∈ found.modules := ((hmem e).1 he).resolve_left List.not_mem_nil
    refine .seed ⟨found, h, ?_⟩
    rwa [hread.key e hfound]
  · intro id hid
    rw [requested_add] at hid
    exact absurd hid List.not_mem_nil

theorem Explored.isCanonical (hk : Explored c fs request k) {key : ModuleKey} {kind : DependencyKind}
    (h : DeclaredBy k.modules id key kind) : id.IsCanonical c := by
  obtain ⟨m, hm, hdeclared⟩ := h
  exact ScriptModule.isCanonical_of_mem_declared (hk.consistent.speaks _ hm) hdeclared

theorem Explored.isCanonical_of_mem_pending (hk : Explored c fs request k) (hid : id ∈ k.pending) :
    id.IsCanonical c := by
  obtain ⟨-, ⟨key, kind, hdeclared⟩, -⟩ := hk.consistent.mem_pending_iff.1 hid
  exact hk.isCanonical hdeclared

/-- The request itself finds no module with an id that is not there. -/
theorem Explored.key_ne_of_seeds (hk : Explored c fs request k) (hnew : k.hasKey (.numbered id) = false)
    (seed : ScriptModule) (hseed : Seeds c fs request seed) : seed.key ≠ .numbered id := by
  intro heq
  have hentry := hk.seeds seed hseed
  rw [heq] at hentry
  rw [hasKey_numbered_iff.2 ⟨seed, hentry⟩] at hnew
  cases hnew

/-- That ids have been asked for changes nothing in what has been found. -/
theorem Explored.asked (hk : Explored c fs request k) : k.asked.Consistent c :=
  ⟨hk.consistent.modules, hk.consistent.unresolved, hk.consistent.key, hk.consistent.speaks,
    hk.consistent.resolved, hk.consistent.noted⟩

theorem Explored.add (hk : Explored c fs request k)
    (h : outcome fs (survey c k.hasKey (.ofIds request.directory k.pending)) = .ok found) :
    Explored c fs request (k.asked.add found) := by
  have hasked := hk.asked
  obtain ⟨hmodules, -⟩ := modulesOf_of_survey h
  obtain ⟨-, hmem⟩ := hasked.modules_add h
  have hids : ∀ id ∈ k.pending, id.IsCanonical c := fun id => hk.isCanonical_of_mem_pending
  constructor
  · exact hasked.add h
  · exact fun m hm => (hmem _).2 (.inl (hk.seeds m hm))
  · intro e he
    rcases (hmem e).1 he with he | he
    · exact hk.discovered e he
    · -- a module that is new was found for an id that a module declares
      obtain ⟨id, hid, hkey, hnew, hmodule⟩ := exists_of_mem_ofIds hids hmodules he
      obtain ⟨-, ⟨key, kind, m, hm, hdeclared⟩, -⟩ := hk.consistent.mem_pending_iff.1 hid
      rw [hkey] at hnew
      have hseeds := hk.key_ne_of_seeds hnew
      exact .declared (hk.discovered _ hm) hdeclared hseeds ((finds_iff (hids id hid)).2 hmodule)
  · intro id hid hnew
    rw [hasked.hasKey_add h, Bool.or_eq_false_iff] at hnew
    rw [requested_add] at hid
    rcases List.mem_append.1 hid with hid | hid
    · exact hk.requested id hid hnew.1
    · have hmodule := (adds_ofIds hids hmodules).new id rfl
      rwa [if_pos ⟨hid, hnew.1⟩, find?_eq_none hnew.2] at hmodule

/-- If there is nothing to ask for, then a declared id that is not there has been asked for in vain. -/
theorem Explored.moduleOf_eq_none (hk : Explored c fs request k) (hpending : k.pending = [])
    {key : ModuleKey} {kind : DependencyKind} (hdeclared : DeclaredBy k.modules id key kind)
    (hnew : k.hasKey (.numbered id) = false) : moduleOf c fs request.directory id = .ok none := by
  apply hk.requested id _ hnew
  by_contra hid
  have hmem : id ∈ k.pending :=
    hk.consistent.mem_pending_iff.2 ⟨hnew, ⟨key, kind, hdeclared⟩, hid⟩
  rw [hpending] at hmem
  cases hmem

/-- If there is nothing to ask for, then what is found for a declared id is there. -/
theorem Explored.hasKey_of_finds (hk : Explored c fs request k) (hpending : k.pending = [])
    {key : ModuleKey} {kind : DependencyKind} (hdeclared : DeclaredBy k.modules id key kind)
    (hfound : Finds c fs request.directory id m) : k.hasKey (.numbered id) = true := by
  by_contra hnew
  rw [Bool.not_eq_true] at hnew
  rw [finds_iff (hk.isCanonical hdeclared), hk.moduleOf_eq_none hpending hdeclared hnew] at hfound
  cases Except.ok.inj hfound

theorem Explored.mem_modules (hk : Explored c fs request k) (hm : m ∈ Sorted.values k.modules) :
    (m.key, m) ∈ k.modules := by
  obtain ⟨e, he, rfl⟩ := List.mem_map.1 hm
  rw [hk.consistent.key e he]
  exact he

/-- What is there for an id has been found for it, unless the request itself finds a module with this
id. -/
theorem Explored.exists_finds (hk : Explored c fs request k)
    (hseeds : ∀ seed, Seeds c fs request seed → seed.key ≠ .numbered id)
    (hkey : k.hasKey (.numbered id) = true) :
    ∃ m ∈ Sorted.values k.modules, Finds c fs request.directory id m := by
  obtain ⟨m, hm⟩ := hasKey_numbered_iff.1 hkey
  have hid : m.key = .numbered id := hk.consistent.key _ hm
  refine ⟨m, List.mem_map.2 ⟨_, hm, rfl⟩, ?_⟩
  -- the module that is there has been found for its own id, which is this one
  cases hk.discovered _ hm with
  | seed hseed => exact absurd hid (hseeds m hseed)
  | declared _ _ _ hfound =>
    rw [hfound.key_eq, ModuleKey.numbered.injEq] at hid
    rwa [hid] at hfound

/-- What is there for an id is what is found for it, unless the request itself finds a module with this
id. -/
theorem Explored.mem_of_finds (hk : Explored c fs request k)
    (hseeds : ∀ seed, Seeds c fs request seed → seed.key ≠ .numbered id)
    (hfound : Finds c fs request.directory id m) (hkey : k.hasKey (.numbered id) = true) :
    m ∈ Sorted.values k.modules := by
  obtain ⟨m', hm', hfound'⟩ := hk.exists_finds hseeds hkey
  rwa [hfound.unique hfound']

/-- The closure of a request holds what it leads to, if there is nothing to ask for. -/
theorem Explored.mem_iff (hk : Explored c fs request k) (hpending : k.pending = []) :
    m ∈ Sorted.values k.modules ↔ Discovered c fs request m := by
  constructor
  · intro hm
    exact hk.discovered _ (hk.mem_modules hm)
  · intro hm
    induction hm with
    | seed h => exact List.mem_map.2 ⟨_, hk.seeds _ h, rfl⟩
    | declared _ hdeclared hseeds hfound ih =>
      have hkey := hk.hasKey_of_finds hpending ⟨_, hk.mem_modules ih, hdeclared⟩ hfound
      exact hk.mem_of_finds hseeds hfound hkey

/-- **The closure of a request holds what it leads to.** -/
theorem explored_of_extend {limit : Nat}
    (h : outcome fs (extend c request.directory limit {} request) = .ok k) :
    Explored c fs request k ∧ k.pending = [] :=
  extend_induction (fun _ _ hk hfound => hk.add hfound) (fun _ hfound => explored_first hfound) h

end Closure

end ScriptBundle
