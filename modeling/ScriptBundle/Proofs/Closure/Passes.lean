import Mathlib.Data.Set.Card
import Mathlib.Data.Set.Finite.Lattice
import ScriptBundle.Proofs.Closure.LeastClosure
import ScriptBundle.Proofs.Closure.Success

/-!
# The surveys of a closure come to an end

A closure is formed by surveys, one for the request and then one after the other for the ids that are still
to be asked for.  No id is asked for twice, and the ids that are asked for are declared in some file.  If
there are only finitely many files, there are only finitely many such ids, and the surveys come to an end.

## Main definitions

* `FileSystem.contents`: what stands in the files of a file system.
* `Closure.Before`: the closure before one of its surveys, the request of this survey, and how many surveys
  have been made.
* `Closure.Ends`: with which survey and with which result the surveys come to an end.

## Main results

* `Before.nodup_requested`, `Before.le_length`: no id is asked for twice, and each survey has found a module.
* `outcome_extend_of_ends`: where the surveys come to an end, the limit on them decides nothing else.
* `ends_of_finite_contents`: **if there are finitely many files, the surveys come to an end.**
-/

namespace ScriptBundle

open BundleAccess Survey

/-- What stands in the files of a file system, however they are called. -/
def FileSystem.contents (fs : FileSystem) : Set ByteArray :=
  { content | ∃ path, fs (.content path) = .ok content }

variable {c : Convention} {fs : FileSystem} {request r : Request} {path : Path} {id : ModuleId}
  {key : ModuleKey} {category : String} {number : Option ℕ} {known : ModuleKey → Bool}
  {modules modules' : ModuleMap} {selection : Selection} {m : ScriptModule} {k : Closure} {found : Survey}
  {n limit bound : ℕ} {result : Except (Failure BundleFault) Closure}

/-- A tree has finitely many files. -/
theorem MemoryTree.finite_contents (t : MemoryTree) : t.fileSystem.contents.Finite := by
  refine (List.finite_toSet (t.files.map fun f => f.2.content)).subset ?_
  rintro content ⟨path, hcontent⟩
  obtain ⟨file, hfile, rfl⟩ := map_eq_ok_iff.1 hcontent
  rw [MemoryTree.file?] at hfile
  split at hfile
  · next hfind =>
    obtain rfl := Except.ok.inj hfile
    obtain ⟨key, -, hmem⟩ := Sorted.mem_of_find? hfind
    exact List.mem_map.2 ⟨_, hmem, rfl⟩
  · cases hfile

/-! ### What modules have been read from -/

namespace Survey

/-- The source of a module is the text of some file. -/
def IsStored (fs : FileSystem) (m : ScriptModule) : Prop :=
  ∃ content ∈ fs.contents, String.fromUTF8? content = some m.source

/-- A text that has been read stands in a file. -/
theorem exists_content_of_text? {text : String × Timestamp}
    (h : outcome fs (text? path) = .ok (some text)) :
    ∃ content ∈ fs.contents, String.fromUTF8? content = some text.1 := by
  rcases outcome_text?_cases h with ⟨hnone, -⟩ | ⟨content, source, modified, hsome, hcontent, -, hsource⟩
  · cases hnone
  · obtain rfl := Option.some.inj hsome
    exact ⟨content, ⟨path, hcontent⟩, hsource⟩

theorem isStored_of_load (h : outcome fs (load c path key category number) = .ok (some m)) :
    IsStored fs m := by
  obtain ⟨source, modified, manifest, htext, -, rfl⟩ := exists_of_load h
  exact exists_content_of_text? htext

/-- The modules of a survey are stored. -/
theorem isStored_of_modulesOf (h : outcome fs (modulesOf c known r) = .ok modules) :
    ∀ e ∈ modules, IsStored fs e.2 :=
  forall_modulesOf (fun _ _ _ _ _ _ hread => isStored_of_load hread.load) h

end Survey

/-- The ids that the script in a file declares. -/
def idsIn (c : Convention) (content : ByteArray) : List ModuleId :=
  match String.fromUTF8? content with
  | none => []
  | some source =>
    match Manifest.ofSource c source.toList with
    | .error _ => []
    | .ok manifest => manifest.dependencies.entries.map Prod.snd

/-- The ids that the scripts in the files of a file system declare. -/
def FileSystem.ids (c : Convention) (fs : FileSystem) : Set ModuleId :=
  { id | ∃ content ∈ fs.contents, id ∈ idsIn c content }

theorem FileSystem.finite_ids (h : fs.contents.Finite) : (FileSystem.ids c fs).Finite := by
  have hunion : FileSystem.ids c fs = ⋃ content ∈ fs.contents, { id | id ∈ idsIn c content } := by
    ext id
    simp [FileSystem.ids]
  rw [hunion]
  exact h.biUnion fun content _ => List.finite_toSet (idsIn c content)

theorem mem_ids_of_isStored {kind : DependencyKind} (hspeaks : SpeaksForItself c m)
    (hstored : IsStored fs m) (hdeclared : (kind, id) ∈ m.declared) : id ∈ FileSystem.ids c fs := by
  obtain ⟨content, hcontent, hsource⟩ := hstored
  refine ⟨content, hcontent, ?_⟩
  rw [idsIn, hsource]
  dsimp only
  rw [hspeaks]
  exact List.mem_map.2 ⟨(kind, id), hdeclared, rfl⟩

namespace Closure

/-! ### The surveys one by one -/

/-- The closure and the request of the next survey, after some surveys that have left something to ask
for. -/
inductive Before (c : Convention) (fs : FileSystem) (request : Request) : ℕ → Closure → Request → Prop
  | start : Before c fs request 0 {} request
  | next {n : ℕ} {k : Closure} {r : Request} {found : Survey} (h : Before c fs request n k r)
      (hfound : outcome fs (survey c k.hasKey r) = .ok found) (hpending : (k.add found).pending ≠ []) :
      Before c fs request (n + 1) (k.add found).asked (.ofIds request.directory (k.add found).pending)

/-- The surveys come to an end: the last one fails, or leaves nothing to ask for. -/
inductive Ends (c : Convention) (fs : FileSystem) (request : Request) :
    ℕ → Except (Failure BundleFault) Closure → Prop
  | failed {n : ℕ} {k : Closure} {r : Request} {failure : Failure BundleFault}
      (h : Before c fs request n k r) (hfailure : outcome fs (survey c k.hasKey r) = .error failure) :
      Ends c fs request (n + 1) (.error failure)
  | complete {n : ℕ} {k : Closure} {r : Request} {found : Survey} (h : Before c fs request n k r)
      (hfound : outcome fs (survey c k.hasKey r) = .ok found) (hpending : (k.add found).pending = []) :
      Ends c fs request (n + 1) (.ok (k.add found))

/-- What the next survey makes of a closure has been explored. -/
theorem Before.explored_add (h : Before c fs request n k r)
    (hfound : outcome fs (survey c k.hasKey r) = .ok found) : Explored c fs request (k.add found) := by
  induction h generalizing found with
  | start => exact explored_first hfound
  | next h hlast _ ih => exact (ih hlast).add hfound

theorem Before.consistent (h : Before c fs request n k r) : k.Consistent c := by
  cases h with
  | start => exact consistent_empty
  | next h hlast _ => exact (h.explored_add hlast).asked

/-- A survey that leaves something to ask for has found a module. -/
theorem Before.modules_ne_nil (h : Before c fs request n k r)
    (hfound : outcome fs (survey c k.hasKey r) = .ok found) (hpending : (k.add found).pending ≠ []) :
    found.modules ≠ [] := by
  intro hnone
  apply hpending
  cases h with
  | start => exact pending_first_eq_nil hfound hnone
  | next h hlast _ => exact (h.explored_add hlast).pending_add_eq_nil hfound hnone

/-- Each survey so far has found a module. -/
theorem Before.le_length (h : Before c fs request n k r) : n ≤ k.modules.length := by
  induction h with
  | start => exact Nat.zero_le _
  | next h hfound hpending ih =>
    have hlonger := h.consistent.length_lt_add hfound (h.modules_ne_nil hfound hpending)
    exact ih.trans_lt hlonger

/-- No id is asked for twice. -/
theorem Before.nodup_requested (h : Before c fs request n k r) : k.requested.Nodup := by
  induction h with
  | start => exact List.nodup_nil
  | @next n k r found h hfound _ ih =>
    have hk := (h.explored_add hfound).consistent
    have hpending : (k.add found).pending.Nodup := hk.unresolved.nodup_keys.filter _
    refine List.nodup_append.2 ⟨by rwa [requested_add], hpending, ?_⟩
    rintro id hid _ hid' rfl
    exact (hk.mem_pending_iff.1 hid').2.2 hid

/-- Each survey but the first one is for an id. -/
theorem Before.le_length_requested (h : Before c fs request n k r) : n ≤ k.requested.length := by
  induction h with
  | start => exact Nat.zero_le _
  | @next n k r found h _ hpending ih =>
    have hone := List.length_pos_of_ne_nil hpending
    rw [asked, List.length_append, requested_add]
    omega

/-- The modules of a closure are stored. -/
theorem Before.isStored (h : Before c fs request n k r) : ∀ e ∈ k.modules, IsStored fs e.2 := by
  induction h with
  | start => exact fun e he => absurd he List.not_mem_nil
  | next h hfound _ ih =>
    intro e he
    rcases ((h.consistent.modules_add hfound).2 e).1 he with he | he
    · exact ih e he
    · exact isStored_of_modulesOf (modulesOf_of_survey hfound).1 e he

/-- The ids that are asked for are declared in some file. -/
theorem Before.requested_subset (h : Before c fs request n k r) :
    ∀ id ∈ k.requested, id ∈ FileSystem.ids c fs := by
  induction h with
  | start => exact fun id hid => absurd hid List.not_mem_nil
  | @next n k r found h hfound hpending ih =>
    intro id hid
    have hnext := h.next hfound hpending
    rcases List.mem_append.1 hid with hid | hid
    · rw [requested_add] at hid
      exact ih id hid
    · obtain ⟨-, ⟨key, kind, m, hm, hdeclared⟩, -⟩ :=
        (h.explored_add hfound).consistent.mem_pending_iff.1 hid
      exact mem_ids_of_isStored (hnext.consistent.speaks _ hm) (hnext.isStored _ hm) hdeclared

/-- There are not more surveys than ids that are declared in some file, and one. -/
theorem Before.le_ncard (h : Before c fs request n k r) (hfiles : fs.contents.Finite) :
    n ≤ (FileSystem.ids c fs).ncard := by
  have hids := FileSystem.finite_ids (c := c) hfiles
  have hsub : k.requested.toFinset ⊆ hids.toFinset := by
    intro id hid
    rw [Set.Finite.mem_toFinset]
    exact h.requested_subset id (List.mem_toFinset.1 hid)
  calc n ≤ k.requested.length := h.le_length_requested
    _ = k.requested.toFinset.card := (List.toFinset_card_of_nodup h.nodup_requested).symm
    _ ≤ hids.toFinset.card := Finset.card_le_card hsub
    _ = (FileSystem.ids c fs).ncard := (Set.ncard_eq_toFinset_card _ hids).symm

/-! ### The end of the surveys -/

/-- If there is a bound to the number of surveys, they come to an end. -/
theorem exists_ends (hbound : ∀ n k r, Before c fs request n k r → n ≤ bound) :
    ∃ n result, Ends c fs request n result := by
  by_contra hnever
  have hforever (n : ℕ) : ∃ k r, Before c fs request n k r := by
    induction n with
    | zero => exact ⟨{}, request, .start⟩
    | succ n ih =>
      obtain ⟨k, r, h⟩ := ih
      cases hfound : outcome fs (survey c k.hasKey r) with
      | error failure => exact absurd ⟨n + 1, _, .failed h hfound⟩ hnever
      | ok found =>
        by_cases hpending : (k.add found).pending = []
        · exact absurd ⟨n + 1, _, .complete h hfound hpending⟩ hnever
        · exact ⟨_, _, h.next hfound hpending⟩
  obtain ⟨k, r, h⟩ := hforever (bound + 1)
  exact absurd (hbound _ _ _ h) (Nat.not_succ_le_self bound)

/-- What is left of a closure when some surveys have been made. -/
theorem Before.outcome_extend (h : Before c fs request n k r) (limit : ℕ) :
    outcome fs (extend c request.directory (limit + n) {} request)
      = outcome fs (extend c request.directory limit k r) := by
  induction h generalizing limit with
  | start => rfl
  | @next n k r found h hfound hpending ih =>
    have hone : limit + (n + 1) = limit + 1 + n := by omega
    rw [hone, ih, outcome_extend_succ, hfound]
    exact if_neg hpending

/-- Before one of its surveys a closure has not been formed with the surveys so far. -/
theorem Before.outcome_extend_of_le (h : Before c fs request n k r) (hlimit : limit ≤ n) :
    outcome fs (extend c request.directory limit {} request) = .error (.abandoned .tooManySurveys) := by
  induction h with
  | start =>
    obtain rfl := Nat.le_zero.1 hlimit
    rfl
  | next h hfound hpending ih =>
    rcases Nat.lt_or_eq_of_le hlimit with hlt | rfl
    · exact ih (Nat.le_of_lt_succ hlt)
    · have hall := (h.next hfound hpending).outcome_extend 0
      rw [Nat.zero_add] at hall
      rw [hall]
      rfl

/-- Where the surveys come to an end, the limit on them decides nothing else than whether they reach
it. -/
theorem outcome_extend_of_ends (h : Ends c fs request n result) (limit : ℕ) :
    outcome fs (extend c request.directory limit {} request)
      = if limit < n then .error (.abandoned .tooManySurveys) else result := by
  -- before the last survey, and behind it
  have hlast (n : ℕ) (k : Closure) (r : Request) (h : Before c fs request n k r)
      (hend : ∀ limit, outcome fs (extend c request.directory (limit + 1) k r) = result) :
      outcome fs (extend c request.directory limit {} request)
        = if limit < n + 1 then .error (.abandoned .tooManySurveys) else result := by
    by_cases hlimit : limit < n + 1
    · rw [if_pos hlimit, h.outcome_extend_of_le (Nat.le_of_lt_succ hlimit)]
    · obtain ⟨more, rfl⟩ : ∃ more, limit = more + 1 + n := ⟨limit - (n + 1), by omega⟩
      rw [if_neg hlimit, h.outcome_extend, hend]
  cases h with
  | failed h hfailure =>
    refine hlast _ _ _ h fun limit => ?_
    rw [outcome_extend_succ, hfailure]
    rfl
  | complete h hfound hpending =>
    refine hlast _ _ _ h fun limit => ?_
    rw [outcome_extend_succ, hfound]
    exact if_pos hpending

theorem Consistent.length_le_add (hk : k.Consistent c)
    (h : outcome fs (survey c k.hasKey r) = .ok found) :
    k.modules.length ≤ (k.add found).modules.length := by
  have hsub : k.modules ⊆ (k.add found).modules := fun e he => ((hk.modules_add h).2 e).2 (.inl he)
  exact (List.subperm_of_subset hk.nodup_modules hsub).length_le

/-- A closure that is formed has not more surveys than modules, and one. -/
theorem Ends.le_length (h : Ends c fs request n (.ok k)) : n ≤ k.modules.length + 1 := by
  cases h with
  | complete h hfound _ => exact Nat.succ_le_succ (h.le_length.trans (h.consistent.length_le_add hfound))

/-- **If there are finitely many files, the surveys come to an end, whatever the files declare.**  No id is
asked for twice, each survey but the last one finds a module, and if none fails, there are not more of them
than modules, and one. -/
theorem ends_of_finite_contents (c : Convention) (request : Request) (hfiles : fs.contents.Finite) :
    (∀ n k r, Before c fs request n k r → k.requested.Nodup ∧ n ≤ k.modules.length) ∧
      ∃ n result, Ends c fs request n result ∧ (∀ k, result = .ok k → n ≤ k.modules.length + 1) ∧
        ∀ limit, outcome fs (extend c request.directory limit {} request)
          = if limit < n then .error (.abandoned .tooManySurveys) else result := by
  refine ⟨fun n k r h => ⟨h.nodup_requested, h.le_length⟩, ?_⟩
  obtain ⟨n, result, hends⟩ := exists_ends fun n k r h => h.le_ncard hfiles
  refine ⟨n, result, hends, ?_, outcome_extend_of_ends hends⟩
  rintro k rfl
  exact hends.le_length

/-- The application and the utility need each other, and the third script is not there: the third survey
asks for it in vain. -/
theorem utilityFiles_ends :
    let request : Request := .file ⟨"js/0_app.js"⟩
    ModuleSet.utilityFiles.fileSystem.contents.Finite ∧
      ∃ k, Ends {} ModuleSet.utilityFiles.fileSystem request 3 (.ok k) ∧ k.modules.length = 2 ∧
        k.requested = [⟨"lib", 1⟩, ⟨".", 2⟩] := by
  intro request
  have hfiles := ModuleSet.utilityFiles.finite_contents
  obtain ⟨-, n, result, hends, -, hextend⟩ := ends_of_finite_contents {} request hfiles
  have htwo : (outcome ModuleSet.utilityFiles.fileSystem
      (extend {} request.directory 2 {} request)).toOption.isSome = false := by
    decide +kernel
  have hthree : (outcome ModuleSet.utilityFiles.fileSystem
      (extend {} request.directory 3 {} request)).toOption.map
        (fun k => (k.modules.length, k.requested)) = some (2, [⟨"lib", 1⟩, ⟨".", 2⟩]) := by
    decide +kernel
  rw [hextend] at htwo hthree
  have hle : ¬ 3 < n := by
    intro hlt
    rw [if_pos hlt] at hthree
    cases hthree
  rw [if_neg hle] at hthree
  cases result with
  | error failure => cases hthree
  | ok k =>
    have hlt : 2 < n := by
      by_contra hnot
      rw [if_neg hnot] at htwo
      cases htwo
    obtain rfl : n = 3 := by omega
    obtain ⟨hlength, hrequested⟩ := Prod.mk.inj (Option.some.inj hthree)
    exact ⟨hfiles, k, hends, hlength, hrequested⟩

end Closure

end ScriptBundle
