import Mathlib.Data.List.Infix
import ScriptBundle.Bundle
import ScriptBundle.FileSystem.Memory
import ScriptBundle.Proofs.FileSystem.Replies
import ScriptBundle.Proofs.Survey.Outcome

/-!
# Files that cannot be read

It is no fault that there is no file or no directory, and it is one if something is there and cannot be
read.  This is so for whatever a file system answers, with one exception: if a file has been read and is
gone when it is asked for its time, then its absence is a fault.

## Main results

* `composes_tellsRefusals`, `Bundle.tellsRefusals_ofRequest`: surveys and bundles end with each refusal.
* `Bundle.io_iff_refused`: **a bundle fails with a fault of the file system if and only if the last replies
  refuse to read a path.**
* `Bundle.isNotFound_eq_false`: it is no fault that there is nothing, if no file is gone when it has been
  read.
-/

namespace ScriptBundle

open Access hiding ask

open BundleAccess

variable {α : Type} {c : Convention} {request : Request} {s : ModuleSet} {path : Path}

/-! ### The steps of a survey -/

theorem tellsRefusals_pure (a : α) : TellsRefusals (pure a : BundleAccess α).run := by
  apply TellsRefusals.done
  intro path fault h
  cases h

theorem tellsRefusals_throw {failure : Failure BundleFault}
    (h : ∀ path fault, failure ≠ .error (.io path fault)) :
    TellsRefusals (throw failure : BundleAccess α).run := by
  apply TellsRefusals.done
  intro path fault heq
  exact h path fault (Except.error.inj heq)

theorem found?_of_isNotFound {refusal : FileFault} (h : refusal.isNotFound = true) :
    found? path (.error refusal : Except FileFault α) = pure none := if_pos h

theorem found?_of_refused {refusal : FileFault} (h : refusal.isNotFound = false) :
    found? path (.error refusal : Except FileFault α) = fault (.io path refusal) :=
  if_neg (h ▸ Bool.false_ne_true)

/-- A listing ends with a refusal to list the directory. -/
theorem tellsRefusals_entries : TellsRefusals (ask (.entries path) >>= found? path).run := by
  apply TellsRefusals.entries path
  · intro names
    exact tellsRefusals_pure (some names)
  · intro refusal hrefusal
    show TellsRefusals (found? path (.error refusal)).run
    rw [found?_of_isNotFound hrefusal]
    exact tellsRefusals_pure none
  · intro refusal hrefusal
    show (found? path (.error refusal)).run = _
    rw [found?_of_refused hrefusal]
    rfl

/-- What is made of the content of a file and its time. -/
theorem tellsRefusals_decoded (content : ByteArray) (modified : Timestamp) :
    TellsRefusals (match String.fromUTF8? content with
      | none => fault (.encoding path)
      | some text => pure (some (text, modified)) : BundleAccess (Option (String × Timestamp))).run := by
  cases String.fromUTF8? content with
  | none => exact tellsRefusals_throw fun _ _ h => nomatch h
  | some text => exact tellsRefusals_pure _

/-- Reading a file ends with a refusal to give its content or its time. -/
theorem tellsRefusals_text? : TellsRefusals (text? path).run := by
  apply TellsRefusals.content path
  · intro content
    exact rfl
  · intro refusal hrefusal
    show TellsRefusals (found? path (.error refusal) >>= _).run
    rw [found?_of_isNotFound hrefusal]
    exact tellsRefusals_pure none
  · intro refusal hrefusal
    show (found? path (.error refusal) >>= _).run = _
    rw [found?_of_refused hrefusal]
    rfl
  · exact tellsRefusals_decoded
  · intro content refusal
    exact rfl

theorem tellsRefusals_isFile : TellsRefusals (ask (.isFile path)).run := by
  apply TellsRefusals.isFile path
  exact fun answer => tellsRefusals_pure answer

theorem tellsRefusals_isDirectory : TellsRefusals (ask (.isDirectory path)).run := by
  apply TellsRefusals.isDirectory path
  exact fun answer => tellsRefusals_pure answer

/-- Each step of a survey ends with each refusal. -/
theorem composes_tellsRefusals : Composes fun x => TellsRefusals x.run := by
  constructor
  · exact tellsRefusals_pure
  · exact TellsRefusals.bind
  · exact fun _ => tellsRefusals_throw fun _ _ h => nomatch h
  · exact fun _ => tellsRefusals_isFile
  · exact fun _ => tellsRefusals_isDirectory
  · exact fun _ => tellsRefusals_entries
  · exact fun _ => tellsRefusals_text?

/-! ### Bundles -/

theorem ModuleSet.tellsRefusals_ofRequest (limit : Nat) :
    TellsRefusals (ofRequest c request limit).run := by
  apply TellsRefusals.bind (composes_tellsRefusals.extend limit {} request)
  intro k
  split
  · exact tellsRefusals_throw fun _ _ h => nomatch h
  · split
    · exact tellsRefusals_pure _
    · exact tellsRefusals_throw fun _ _ h => nomatch h

/-- Files have been read before modules are put in order. -/
theorem ModuleSet.resolve_ne_io {fault : FileFault} : s.resolve ≠ .error (.error (.io path fault)) := by
  intro h
  rw [resolve, map_eq_error_iff] at h
  unfold weigh at h
  split at h
  · cases h
  · cases h
  · cases h

theorem Resolution.tellsRefusals_ofRequest : TellsRefusals (ofRequest c request).run := by
  apply TellsRefusals.bind (ModuleSet.tellsRefusals_ofRequest surveyLimit)
  intro s
  cases hresolve : s.resolve with
  | ok r => exact tellsRefusals_pure r
  | error failure =>
    apply tellsRefusals_throw
    rintro path fault rfl
    exact ModuleSet.resolve_ne_io hresolve

theorem ModuleSet.tellsRefusals_loader? : TellsRefusals (s.loader? c).run := by
  unfold loader?
  split
  · apply TellsRefusals.bind tellsRefusals_text?
    intro text
    cases text with
    | none => exact tellsRefusals_pure none
    | some text => exact tellsRefusals_pure _
  · exact tellsRefusals_pure none

/-- A bundle ends with each refusal. -/
theorem Bundle.tellsRefusals_ofRequest : TellsRefusals (ofRequest c request).run := by
  apply TellsRefusals.bind Resolution.tellsRefusals_ofRequest
  intro r
  apply TellsRefusals.bind ModuleSet.tellsRefusals_loader?
  intro loader
  exact tellsRefusals_pure _

/-- **A bundle fails with a fault of the file system if and only if the last replies refuse to read a
path.** -/
theorem Bundle.io_iff_refused {log : List Reply} {result : Except (Failure BundleFault) Bundle}
    (h : Ends (ofRequest c request).run log result) (path : Path) (fault : FileFault) :
    result = .error (.error (.io path fault)) ↔ Refused path fault log :=
  tellsRefusals_ofRequest.io_iff h

/-- If no file is gone after its content has been read, then it is no fault that there is nothing. -/
theorem Bundle.isNotFound_eq_false {log : List Reply} {fault : FileFault}
    (h : Ends (ofRequest c request).run log (.error (.error (.io path fault))))
    (hlasting : ∀ path content refusal,
      [⟨.content path, .ok content⟩, ⟨.modified path, .error refusal⟩] <:+: log →
        refusal.isNotFound = false) : fault.isNotFound = false := by
  have hrefused : Refused path fault log := (tellsRefusals_ofRequest.io_iff h).1 rfl
  by_contra hfault
  rw [Bool.not_eq_false] at hfault
  obtain ⟨content, hgone⟩ := hrefused.exists_content hfault
  rw [hlasting path content fault hgone.isInfix] at hfault
  cases hfault

/-! ### A file that is gone -/

/-- An application and a utility that is gone when it has been read. -/
def goneFiles : FileSystem :=
  (MemoryTree.ofFiles
    [(⟨"js/0_app.js"⟩, "((a,Script)=>setOptionalDependencies('1'))();".toUTF8),
     (⟨"js/1_util.js"⟩, "let util = 1;".toUTF8)]).fileSystem.answering
    (.modified ⟨"js/1_util.js"⟩) (.error (.notFound "js/1_util.js"))

theorem goneFiles_ends :
    ∃ log, Ends (Bundle.ofRequest {} (.modules ⟨"js"⟩ none [(".", .every)])).run log
      (.error (.error (.io ⟨"js/1_util.js"⟩ (.notFound "js/1_util.js")))) := by
  have hgone : outcome goneFiles (Bundle.ofRequest {} (.modules ⟨"js"⟩ none [(".", .every)]))
      = .error (.error (.io ⟨"js/1_util.js"⟩ (.notFound "js/1_util.js"))) := by
    decide +kernel
  rw [← hgone]
  exact ⟨_, ends_replies goneFiles _⟩

theorem goneFiles_refused :
    ∃ log, Ends (Bundle.ofRequest {} (.modules ⟨"js"⟩ none [(".", .every)])).run log
        (.error (.error (.io ⟨"js/1_util.js"⟩ (.notFound "js/1_util.js")))) ∧
      Refused ⟨"js/1_util.js"⟩ (.notFound "js/1_util.js") log := by
  obtain ⟨log, hlog⟩ := goneFiles_ends
  exact ⟨log, hlog, (Bundle.io_iff_refused hlog ⟨"js/1_util.js"⟩ (.notFound "js/1_util.js")).1 rfl⟩

/-- Absence is not always treated as absence. -/
theorem goneFiles_notFound :
    ¬ ∀ (request : Request) (log : List Reply) (path : Path) (fault : FileFault),
      Ends (Bundle.ofRequest {} request).run log (.error (.error (.io path fault))) →
        fault.isNotFound = false := by
  intro h
  obtain ⟨log, hlog⟩ := goneFiles_ends
  have hfound := h _ log _ _ hlog
  cases hfound

end ScriptBundle
