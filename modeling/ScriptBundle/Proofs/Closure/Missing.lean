import ScriptBundle.Proofs.Closure.LeastClosure
import ScriptBundle.Proofs.Survey.Outcome

/-!
# Missing dependencies

A request is refused for missing dependencies if a module to which it leads declares an id by a kind that
is mandatory, and nothing is found for this id.  The refusal names all these ids and all modules that
declare them.

## Main definitions

* `Lacks`: a mandatory dependency of a request is missing.
* `IsMissingReport`: what a refusal is to say.

## Main results

* `Explored.lacks_iff`: the ids that are missing are those that are noted as mandatory.
* `missingDependency_iff`: **a request is refused for missing dependencies if and only if some are
  missing, and the refusal names them all.**
-/

namespace ScriptBundle

open BundleAccess Survey

variable {c : Convention} {fs : FileSystem} {request : Request} {id : ModuleId} {k : Closure}
  {limit : Nat}

/-- A module to which a request leads declares an id by a mandatory kind, but there is no module with
this id among those to which the request leads, and nothing is found for it. -/
structure Lacks (c : Convention) (fs : FileSystem) (request : Request) (id : ModuleId) : Prop where
  declared : ∃ m kind, Discovered c fs request m ∧ (kind, id) ∈ m.declared ∧ kind.isMandatory = true
  absent : ∀ m, Discovered c fs request m → m.key ≠ .numbered id
  notFound : ∀ found, ¬ Finds c fs request.directory id found

/-- A refusal names the missing ids in order, each of them once, and with each of them the modules that
declare it by any kind, each of them once. -/
structure IsMissingReport (c : Convention) (fs : FileSystem) (request : Request)
    (missing : List MissingModule) : Prop where
  ascending : missing.Pairwise fun a b => compare a.id b.id = .lt
  ids : ∀ id, (∃ entry ∈ missing, entry.id = id) ↔ Lacks c fs request id
  nodup : ∀ entry ∈ missing, entry.referrers.Nodup
  referrers : ∀ entry ∈ missing, ∀ key, key ∈ entry.referrers
    ↔ ∃ m kind, Discovered c fs request m ∧ m.key = key ∧ (kind, entry.id) ∈ m.declared

/-- If nothing is found for an id, neither by the request itself, then there is no module with this id
among those to which the request leads. -/
theorem absent_of_not_finds (hseeds : ∀ seed, Seeds c fs request seed → seed.key ≠ .numbered id)
    (hfinds : ∀ found, ¬ Finds c fs request.directory id found) (m : ScriptModule)
    (hm : Discovered c fs request m) : m.key ≠ .numbered id := by
  intro hkey
  cases hm with
  | seed h => exact hseeds m h hkey
  | declared _ _ _ hfound =>
    rw [hfound.key_eq, ModuleKey.numbered.injEq] at hkey
    rw [hkey] at hfound
    exact hfinds m hfound

namespace Closure

theorem Explored.declaredBy_iff (hk : Explored c fs request k) (hpending : k.pending = [])
    {key : ModuleKey} {kind : DependencyKind} :
    DeclaredBy k.modules id key kind
      ↔ ∃ m, Discovered c fs request m ∧ m.key = key ∧ (kind, id) ∈ m.declared := by
  constructor
  · rintro ⟨m, hm, hdeclared⟩
    exact ⟨m, hk.discovered _ hm, hk.consistent.key _ hm, hdeclared⟩
  · rintro ⟨m, hm, rfl, hdeclared⟩
    exact ⟨m, hk.mem_modules ((hk.mem_iff hpending).2 hm), hdeclared⟩

theorem Explored.hasKey_iff (hk : Explored c fs request k) (hpending : k.pending = []) :
    k.hasKey (.numbered id) = true ↔ ∃ m, Discovered c fs request m ∧ m.key = .numbered id := by
  rw [hasKey_numbered_iff]
  constructor
  · rintro ⟨m, hm⟩
    exact ⟨m, hk.discovered _ hm, hk.consistent.key _ hm⟩
  · rintro ⟨m, hm, hkey⟩
    have hentry := hk.mem_modules ((hk.mem_iff hpending).2 hm)
    rw [hkey] at hentry
    exact ⟨m, hentry⟩

/-- The ids that are missing are those that are noted as mandatory. -/
theorem Explored.lacks_iff (hk : Explored c fs request k) (hpending : k.pending = []) :
    Lacks c fs request id ↔ ∃ u, (id, u) ∈ k.unresolved ∧ u.mandatory = true := by
  simp only [Sorted.mem_iff_find? hk.consistent.unresolved]
  constructor
  · intro h
    have habsent : k.hasKey (.numbered id) = false := by
      rw [← Bool.not_eq_true, hk.hasKey_iff hpending]
      rintro ⟨m, hm, hkey⟩
      exact h.absent m hm hkey
    obtain ⟨m, kind, hm, hdeclared, hmandatory⟩ := h.declared
    have hnoted := (hk.consistent.noted id habsent).mandatory.2
      ⟨m.key, kind, (hk.declaredBy_iff hpending).2 ⟨m, hm, rfl, hdeclared⟩, hmandatory⟩
    cases hfind : Sorted.find? id k.unresolved with
    | none =>
      rw [hfind] at hnoted
      cases hnoted
    | some u =>
      rw [hfind] at hnoted
      exact ⟨u, rfl, hnoted⟩
  · rintro ⟨u, hfind, hmandatory⟩
    -- there is no note about an id that has a module
    have habsent : k.hasKey (.numbered id) = false := by
      rw [← Bool.not_eq_true]
      intro hkey
      rw [hk.consistent.resolved id hkey] at hfind
      cases hfind
    have hnoted := (hk.consistent.noted id habsent).mandatory
    rw [hfind] at hnoted
    obtain ⟨key, kind, hdeclaredBy, hkind⟩ := hnoted.1 hmandatory
    obtain ⟨m, hm, -, hdeclared⟩ := (hk.declaredBy_iff hpending).1 hdeclaredBy
    constructor
    · exact ⟨m, kind, hm, hdeclared, hkind⟩
    · intro m hm hkey
      rw [(hk.hasKey_iff hpending).2 ⟨m, hm, hkey⟩] at habsent
      cases habsent
    · intro found hfound
      rw [hk.hasKey_of_finds hpending hdeclaredBy hfound] at habsent
      cases habsent

theorem mem_missing_iff {entry : MissingModule} :
    entry ∈ k.missing ↔ ∃ u, (entry.id, u) ∈ k.unresolved ∧ u.mandatory = true ∧
      entry.referrers = u.referrers := by
  rw [missing, List.mem_map]
  constructor
  · rintro ⟨⟨id, u⟩, hu, rfl⟩
    obtain ⟨hu, hmandatory⟩ := List.mem_filter.1 hu
    exact ⟨u, hu, hmandatory, rfl⟩
  · rintro ⟨u, hu, hmandatory, hreferrers⟩
    refine ⟨(entry.id, u), List.mem_filter.2 ⟨hu, hmandatory⟩, ?_⟩
    rw [← hreferrers]

/-- What is noted of the missing ids is what a refusal is to say. -/
theorem Explored.isMissingReport (hk : Explored c fs request k) (hpending : k.pending = []) :
    IsMissingReport c fs request k.missing := by
  -- what is noted of an id that is missing holds all declarations of it
  have hnoted {entry : MissingModule} {u : Unresolved} (hu : (entry.id, u) ∈ k.unresolved) :
      Noted (DeclaredBy k.modules entry.id) (some u) := by
    have hfind := (Sorted.mem_iff_find? hk.consistent.unresolved).1 hu
    rw [← hfind]
    refine hk.consistent.noted _ ?_
    rw [← Bool.not_eq_true]
    intro hkey
    rw [hk.consistent.resolved _ hkey] at hfind
    cases hfind
  constructor
  · rw [missing, List.pairwise_map]
    exact hk.consistent.unresolved.filter _
  · intro id
    rw [hk.lacks_iff hpending]
    constructor
    · rintro ⟨entry, hentry, rfl⟩
      obtain ⟨u, hu, hmandatory, -⟩ := mem_missing_iff.1 hentry
      exact ⟨u, hu, hmandatory⟩
    · rintro ⟨u, hu, hmandatory⟩
      exact ⟨⟨id, u.referrers⟩, mem_missing_iff.2 ⟨u, hu, hmandatory, rfl⟩, rfl⟩
  · intro entry hentry
    obtain ⟨u, hu, -, hreferrers⟩ := mem_missing_iff.1 hentry
    rw [hreferrers]
    exact (hnoted hu).nodup
  · intro entry hentry key
    obtain ⟨u, hu, -, hreferrers⟩ := mem_missing_iff.1 hentry
    rw [hreferrers, ← exists_comm]
    refine ((hnoted hu).referrers key).trans (exists_congr fun kind => ?_)
    exact hk.declaredBy_iff hpending

end Closure

namespace ModuleSet

/-- A request is refused for the missing dependencies of its closure, if there are any. -/
theorem outcome_eq_missingDependency_iff {missing : List MissingModule}
    (hextend : outcome fs (Closure.extend c request.directory limit {} request) = .ok k) :
    outcome fs (ofRequest c request limit) = .error (.error (.missingDependency missing))
      ↔ missing = k.missing ∧ k.missing ≠ [] := by
  obtain ⟨hk, hpending⟩ := Closure.explored_of_extend hextend
  rw [outcome_ofRequest, hextend]
  change (if k.modules.isEmpty = true then _ else _) = _ ↔ _
  cases hmissing : k.missing with
  | nil =>
    cases k.modules.isEmpty <;> simp
  | cons first rest =>
    -- a module declares what is missing, so that the closure is not empty
    have hfirst : first ∈ k.missing := by
      rw [hmissing]
      exact List.mem_cons_self
    have hlacks := ((hk.isMissingReport hpending).ids first.id).1 ⟨first, hfirst, rfl⟩
    obtain ⟨m, kind, hm, -⟩ := hlacks.declared
    have hempty : k.modules.isEmpty = false := by
      rw [List.isEmpty_eq_false_iff]
      exact List.ne_nil_of_mem (hk.mem_modules ((hk.mem_iff hpending).2 hm))
    rw [hempty, if_neg Bool.false_ne_true]
    simp [eq_comm]

/-- **A request is refused for missing dependencies if and only if some are missing, and the refusal names
them all.** -/
theorem missingDependency_iff
    (hread : ∀ failure, outcome fs (ofRequest c request limit) = .error failure →
      ¬ failure.IsUnreadable) :
    ((∃ missing, outcome fs (ofRequest c request limit) = .error (.error (.missingDependency missing)))
      ↔ ∃ id, Lacks c fs request id) ∧
    ∀ missing, outcome fs (ofRequest c request limit) = .error (.error (.missingDependency missing)) →
      IsMissingReport c fs request missing := by
  cases hextend : outcome fs (Closure.extend c request.directory limit {} request) with
  | error failure =>
    have hfailure : outcome fs (ofRequest c request limit) = .error failure := by
      rw [outcome_ofRequest, hextend]
      rfl
    have hunreadable := Closure.failsToRead_extend limit {} request failure hextend
    exact absurd hunreadable (hread failure hfailure)
  | ok k =>
    obtain ⟨hk, hpending⟩ := Closure.explored_of_extend hextend
    have hreport := hk.isMissingReport hpending
    simp only [outcome_eq_missingDependency_iff hextend]
    refine ⟨⟨?_, ?_⟩, ?_⟩
    · rintro ⟨missing, rfl, hne⟩
      obtain ⟨entry, hentry⟩ := List.exists_mem_of_ne_nil _ hne
      exact ⟨entry.id, (hreport.ids entry.id).1 ⟨entry, hentry, rfl⟩⟩
    · rintro ⟨id, hid⟩
      obtain ⟨entry, hentry, -⟩ := (hreport.ids id).2 hid
      exact ⟨k.missing, rfl, List.ne_nil_of_mem hentry⟩
    · rintro missing ⟨rfl, -⟩
      exact hreport

/-- An application cannot be compiled without a script that is not there, which its utility can do
without. -/
def absentFiles : MemoryTree :=
  .ofFiles
    [(⟨"js/0_app.js"⟩, "((a,Script)=>setCompileDependencies(['1','7']))".toUTF8),
     (⟨"js/1_util.js"⟩, "((a,Script)=>setOptionalDependencies('7'))".toUTF8)]

theorem absentFiles_missingDependency :
    ∃ missing, outcome absentFiles.fileSystem (ofRequest {} (.file ⟨"js/0_app.js"⟩))
        = .error (.error (.missingDependency missing)) ∧
      missing = [⟨⟨".", 7⟩, [.numbered ⟨".", 0⟩, .numbered ⟨".", 1⟩]⟩] ∧
      Lacks {} absentFiles.fileSystem (.file ⟨"js/0_app.js"⟩) ⟨".", 7⟩ ∧
      IsMissingReport {} absentFiles.fileSystem (.file ⟨"js/0_app.js"⟩) missing := by
  have hrefused : outcome absentFiles.fileSystem (ofRequest {} (.file ⟨"js/0_app.js"⟩))
      = .error (.error (.missingDependency
        [⟨⟨".", 7⟩, [.numbered ⟨".", 0⟩, .numbered ⟨".", 1⟩]⟩])) := by
    refine (map_eq_error_iff (f := keys)).1 ?_
    decide +kernel
  have hread : ∀ failure,
      outcome absentFiles.fileSystem (ofRequest {} (.file ⟨"js/0_app.js"⟩)) = .error failure →
        ¬ failure.IsUnreadable := by
    intro failure hfailure
    rw [hrefused] at hfailure
    rw [← Except.error.inj hfailure]
    exact id
  obtain ⟨-, hreport⟩ := missingDependency_iff hread
  have hids := (hreport _ hrefused).ids ⟨".", 7⟩
  exact ⟨_, hrefused, rfl, hids.1 ⟨_, List.mem_cons_self, rfl⟩, hreport _ hrefused⟩

/-- The same application, with a utility whose only reference cannot be cut. -/
def uncutFiles : MemoryTree :=
  .ofFiles
    [(⟨"js/0_app.js"⟩, "((a,Script)=>setCompileDependencies(['1','7']))".toUTF8),
     (⟨"js/1_util.js"⟩, "((a,Script)=>setOptionalDependencies('é'))".toUTF8)]

theorem uncutFiles_lacks :
    Lacks {} uncutFiles.fileSystem (.file ⟨"js/0_app.js"⟩) ⟨".", 7⟩ ∧
      outcome uncutFiles.fileSystem (ofRequest {} (.file ⟨"js/0_app.js"⟩))
        = .error (.abandoned (.cutInsideCharacter "é")) := by
  have hseeds : (outcome uncutFiles.fileSystem
      (survey {} (fun _ => false) (.file ⟨"js/0_app.js"⟩))).map
        (fun found => found.modules.map fun e => (e.1, e.2.declared))
      = .ok [(.numbered ⟨".", 0⟩, [(.compile, ⟨".", 1⟩), (.compile, ⟨".", 7⟩)])] := by
    decide +kernel
  have hnothing : (outcome uncutFiles.fileSystem (survey {} (fun _ => false)
      (.ofIds (Request.directory (.file ⟨"js/0_app.js"⟩)) [⟨".", 7⟩]))).map
        (fun found => found.modules.map Prod.fst) = .ok [] := by
    decide +kernel
  obtain ⟨found, hfound, hmodules⟩ := map_eq_ok_iff.1 hseeds
  obtain ⟨⟨key, m⟩, hm, hdeclared⟩ := List.map_eq_singleton_iff.1 hmodules
  obtain ⟨rfl : key = _, hdeclared : m.declared = _⟩ := Prod.mk.inj hdeclared
  have hread := readAnew_modulesOf (modulesOf_of_survey hfound).1
  have hentry : (.numbered ⟨".", 0⟩, m) ∈ found.modules := by
    rw [hm]
    exact List.mem_cons_self
  have hkey : m.key = .numbered ⟨".", 0⟩ := hread.key _ hentry
  have hnotFound (m : ScriptModule) : ¬ Finds {} uncutFiles.fileSystem
      (Request.directory (.file ⟨"js/0_app.js"⟩)) ⟨".", 7⟩ m := by
    rintro ⟨found', hfound', hm'⟩
    obtain ⟨found, hfound, hempty⟩ := map_eq_ok_iff.1 hnothing
    obtain rfl := Except.ok.inj (hfound'.symm.trans hfound)
    rw [List.map_eq_nil_iff.1 hempty] at hm'
    cases hm'
  constructor
  · constructor
    · refine ⟨m, .compile, .seed ⟨found, hfound, ?_⟩, ?_, rfl⟩
      · rwa [hkey]
      · rw [hdeclared]
        exact List.mem_cons_of_mem _ List.mem_cons_self
    · refine absent_of_not_finds ?_ hnotFound
      rintro seed ⟨found', hfound', hseed⟩
      obtain rfl := Except.ok.inj (hfound'.symm.trans hfound)
      rw [hm, List.mem_singleton] at hseed
      rw [(Prod.mk.inj hseed).1]
      decide
    · exact hnotFound
  · refine (map_eq_error_iff (f := keys)).1 ?_
    decide +kernel

end ModuleSet

end ScriptBundle
