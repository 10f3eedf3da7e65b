import ScriptBundle.Closure
import ScriptBundle.Proofs.Except
import ScriptBundle.Survey

/-!
# Outcomes of computations that ask questions

On a file system whose answers do not change, a computation has one outcome: a result, a fault, or
none.  The outcome of a computation in several parts is put together from those of the parts.

A survey asks whether there is a file or a directory, lists a directory and reads a file; everything else is
to go on with what has been found, or to give up.  So what holds of these steps, and of a computation in
two parts if it holds of the parts, holds of every survey and of every closure.  In this way a survey is seen
to fail if something is there that cannot be read, and for no other reason.

## Main definitions

* `BundleAccess.outcome`: the outcome of a computation on a file system.
* `BundleAccess.Composes`: a property holds of the steps, and of what is composed of computations with it.
* `Failure.IsUnreadable`: something cannot be read, or there is no end of reading.
* `FailsToRead`: a computation fails for such reasons only.

## Main results

* `outcome_bind`, `outcome_foldlM`: the outcome of a computation in several parts.
* `outcome_text?_cases`: when a text has been read, and when there is none.
* `Composes.survey`, `Composes.extend`: **what holds of the steps holds of surveys and closures.**
* `failsToRead_extend`: **closures fail for such reasons only.**
-/

namespace ScriptBundle

namespace BundleAccess

variable {α β : Type} (fs : FileSystem)

/-- The outcome of a computation on a file system. -/
def outcome (x : BundleAccess α) : Except (Failure BundleFault) α := Access.run fs x.run

@[simp] theorem outcome_pure (a : α) : outcome fs (pure a : BundleAccess α) = .ok a := rfl

@[simp] theorem outcome_throw (failure : Failure BundleFault) :
    outcome fs (throw failure : BundleAccess α) = .error failure := rfl

@[simp] theorem outcome_ask (q : Question) : outcome fs (ask q) = .ok (fs q) := rfl

/-- The outcome of a computation in two parts. -/
@[simp] theorem outcome_bind (x : BundleAccess α) (f : α → BundleAccess β) :
    outcome fs (x >>= f) = outcome fs x >>= fun a => outcome fs (f a) := by
  have hrun : outcome fs (x >>= f) = Access.run fs (x.run >>= ExceptT.bindCont f) := rfl
  rw [hrun, Access.run_bind]
  unfold outcome
  cases Access.run fs x.run with
  | error failure => rfl
  | ok a => rfl

/-- The outcome of a sequence of steps. -/
theorem outcome_foldlM (f : β → α → BundleAccess β) (as : List α) (b : β) :
    outcome fs (as.foldlM f b) = as.foldlM (fun b a => outcome fs (f b a)) b := by
  induction as generalizing b with
  | nil => rfl
  | cons a as ih =>
    rw [List.foldlM_cons, outcome_bind, List.foldlM_cons]
    exact congrArg _ (funext fun b => ih b)

/-! ### Reading a text -/

variable {fs} {path : Path}

/-- There is no text if there is no file, and a file that cannot be read is a fault. -/
theorem outcome_text?_of_refused {refusal : FileFault} (h : fs (.content path) = .error refusal) :
    outcome fs (text? path)
      = if refusal.isNotFound then .ok none else .error (.error (.io path refusal)) := by
  rw [text?, outcome_bind, outcome_ask, h]
  show outcome fs (found? path (.error refusal) >>= _) = _
  rw [outcome_bind, found?]
  split <;> rfl

/-- A file that has been read must tell its time. -/
theorem outcome_text?_of_timeless {content : ByteArray} {refusal : FileFault}
    (h : fs (.content path) = .ok content) (hmodified : fs (.modified path) = .error refusal) :
    outcome fs (text? path) = .error (.error (.io path refusal)) := by
  rw [text?, outcome_bind, outcome_ask, h]
  show outcome fs (ask (.modified path) >>= fun answer => answered path answer >>= _) = _
  rw [outcome_bind, outcome_ask, hmodified]
  rfl

/-- A file that has been read has a text if its content is one. -/
theorem outcome_text?_of_content {content : ByteArray} {modified : Timestamp}
    (h : fs (.content path) = .ok content) (hmodified : fs (.modified path) = .ok modified) :
    outcome fs (text? path) = match String.fromUTF8? content with
      | none => .error (.error (.encoding path))
      | some text => .ok (some (text, modified)) := by
  rw [text?, outcome_bind, outcome_ask, h]
  show outcome fs (ask (.modified path) >>= fun answer => answered path answer >>= _) = _
  rw [outcome_bind, outcome_ask, hmodified]
  show outcome fs (match String.fromUTF8? content with
    | none => _
    | some text => _) = _
  cases String.fromUTF8? content with
  | none => rfl
  | some text => rfl

/-- A text has been read, or there is no file. -/
theorem outcome_text?_cases {text : Option (String × Timestamp)} (h : outcome fs (text? path) = .ok text) :
    (text = none ∧ ∃ refusal, fs (.content path) = .error refusal ∧ refusal.isNotFound = true) ∨
    ∃ content source modified, text = some (source, modified) ∧ fs (.content path) = .ok content ∧
      fs (.modified path) = .ok modified ∧ String.fromUTF8? content = some source := by
  cases hcontent : fs (.content path) with
  | error refusal =>
    rw [outcome_text?_of_refused hcontent] at h
    split at h
    · next hmissing => exact .inl ⟨(Except.ok.inj h).symm, refusal, rfl, hmissing⟩
    · cases h
  | ok content =>
    cases hmodified : fs (.modified path) with
    | error refusal =>
      rw [outcome_text?_of_timeless hcontent hmodified] at h
      cases h
    | ok modified =>
      rw [outcome_text?_of_content hcontent hmodified] at h
      cases hsource : String.fromUTF8? content with
      | none =>
        rw [hsource] at h
        cases h
      | some source =>
        rw [hsource] at h
        exact .inr ⟨content, source, modified, (Except.ok.inj h).symm, rfl, rfl, hsource⟩

end BundleAccess

/-! ### Surveys are composed of a few steps -/

open BundleAccess Survey

/-- A property holds of the steps of a survey, and of what is composed of computations with it. -/
structure BundleAccess.Composes (P : ∀ {α : Type}, BundleAccess α → Prop) : Prop where
  pure : ∀ {α : Type} (a : α), P (pure a : BundleAccess α)
  bind : ∀ {α β : Type} {x : BundleAccess α} {f : α → BundleAccess β},
    P x → (∀ a, P (f a)) → P (x >>= f)
  /-- Giving up. -/
  abandon : ∀ {α : Type} (reason : Abandonment), P (throw (.abandoned reason) : BundleAccess α)
  isFile : ∀ path, P (ask (.isFile path))
  isDirectory : ∀ path, P (ask (.isDirectory path))
  /-- Listing a directory. -/
  entries : ∀ path, P (ask (.entries path) >>= found? path)
  /-- Reading a file. -/
  text : ∀ path, P (text? path)

namespace BundleAccess.Composes

variable {P : ∀ {α : Type}, BundleAccess α → Prop} {α β : Type} {c : Convention}
  {known : ModuleKey → Bool} {dir path : Path} {key : ModuleKey} {category : String}
  {number : Option Nat} {selection : Selection} {modules : ModuleMap}

theorem foldlM (h : Composes P) {step : β → α → BundleAccess β} (hstep : ∀ b a, P (step b a))
    (as : List α) (b : β) : P (as.foldlM step b) := by
  induction as generalizing b with
  | nil => exact h.pure b
  | cons a as ih =>
    rw [List.foldlM_cons]
    exact h.bind (hstep b a) ih

theorem manifest (h : Composes P) (source : String) : P (Survey.manifest c source) := by
  unfold Survey.manifest
  cases Manifest.ofSource c source.toList with
  | ok m => exact h.pure m
  | error reason => exact h.abandon reason

theorem load (h : Composes P) : P (Survey.load c path key category number) := by
  apply h.bind (h.text path)
  intro text
  cases text with
  | none => exact h.pure none
  | some text => exact h.bind (h.manifest text.1) fun m => h.pure _

theorem addEntry (h : Composes P) (name : String) :
    P (Survey.addEntry c known dir category selection modules name) := by
  unfold Survey.addEntry
  cases moduleNumber? c.extension name with
  | none => exact h.pure modules
  | some n =>
    dsimp only
    split
    · exact h.pure modules
    · apply h.bind (h.isFile _)
      intro isFile
      split
      · exact h.pure modules
      · apply h.bind h.load
        intro found
        cases found with
        | none => exact h.pure modules
        | some m => exact h.pure _

/-- To list a directory and to go on is to ask for the entries and to go on with what has been found. -/
theorem bind_entries (h : Composes P) {f : Option (List String) → BundleAccess α}
    (hf : ∀ names, P (f names)) : P (ask (.entries path) >>= fun answer => found? path answer >>= f) := by
  have hlisted : P ((ask (.entries path) >>= found? path) >>= f) := h.bind (h.entries path) hf
  exact hlisted

theorem addCategory (h : Composes P) (wanted : String × Selection) :
    P (Survey.addCategory c known dir modules wanted) := by
  unfold Survey.addCategory
  dsimp only
  cases categoryDirectory? c dir (c.canonical wanted.1) with
  | none => exact h.pure modules
  | some dir =>
    apply h.bind (h.isDirectory dir)
    intro isDirectory
    split
    · exact h.pure modules
    · apply h.bind_entries
      intro names
      cases names with
      | none => exact h.pure modules
      | some names => exact h.foldlM (fun _ name => h.addEntry name) names modules

theorem modulesOf (h : Composes P) (request : Request) : P (Survey.modulesOf c known request) := by
  cases request with
  | modules dir name selections => exact h.foldlM (fun _ wanted => h.addCategory wanted) selections []
  | file path =>
    apply h.bind h.load
    intro found
    cases found with
    | none => exact h.pure []
    | some m => exact h.pure _

/-- What holds of the steps of a survey holds of a survey. -/
theorem survey (h : Composes P) (request : Request) : P (survey c known request) :=
  h.bind (h.modulesOf request) fun _ => h.pure _

/-- **What holds of the steps of a survey holds of the closure of a request.** -/
theorem extend (h : Composes P) (limit : Nat) (k : Closure) (request : Request) :
    P (Closure.extend c dir limit k request) := by
  induction limit generalizing k request with
  | zero => exact h.abandon _
  | succ limit ih =>
    apply h.bind (h.survey request)
    intro found
    dsimp only
    cases (k.add found).pending with
    | nil => exact h.pure _
    | cons id ids => exact ih _ _

end BundleAccess.Composes

/-! ### Why surveys fail -/

/-- Something cannot be read, or there is no end of reading. -/
def Failure.IsUnreadable : Failure BundleFault → Prop
  | .error (.io _ _) | .error (.encoding _) | .abandoned _ => True
  | .error _ => False

namespace BundleAccess

variable {α β : Type} {fs : FileSystem} {x : BundleAccess α} {f : α → BundleAccess β} {path : Path}

/-- A computation fails only if something cannot be read. -/
def FailsToRead (fs : FileSystem) (x : BundleAccess α) : Prop :=
  ∀ failure, outcome fs x = .error failure → failure.IsUnreadable

theorem failsToRead_pure (a : α) : FailsToRead fs (pure a : BundleAccess α) :=
  fun _ h => nomatch h

theorem failsToRead_ask (q : Question) : FailsToRead fs (ask q) := fun _ h => nomatch h

theorem failsToRead_throw {failure : Failure BundleFault} (h : failure.IsUnreadable) :
    FailsToRead fs (throw failure : BundleAccess α) := by
  intro failure' hfailure
  rwa [← Except.error.inj hfailure]

theorem failsToRead_bind (hx : FailsToRead fs x) (hf : ∀ a, FailsToRead fs (f a)) :
    FailsToRead fs (x >>= f) := by
  intro failure h
  rw [outcome_bind, bind_eq_error_iff] at h
  rcases h with h | ⟨a, -, h⟩
  · exact hx failure h
  · exact hf a failure h

/-! ### Files -/

theorem failsToRead_answered (answer : Except FileFault α) : FailsToRead fs (answered path answer) := by
  cases answer with
  | ok a => exact failsToRead_pure a
  | error refusal => exact failsToRead_throw trivial

theorem failsToRead_found? (answer : Except FileFault α) : FailsToRead fs (found? path answer) := by
  cases answer with
  | ok a => exact failsToRead_pure (some a)
  | error refusal =>
    unfold found?
    dsimp only
    cases refusal.isNotFound with
    | true => exact failsToRead_pure none
    | false => exact failsToRead_throw trivial

theorem failsToRead_text? : FailsToRead fs (text? path) := by
  refine failsToRead_bind (failsToRead_ask _) fun answer => ?_
  refine failsToRead_bind (failsToRead_found? answer) fun content => ?_
  cases content with
  | none => exact failsToRead_pure none
  | some content =>
    refine failsToRead_bind (failsToRead_ask _) fun answer => ?_
    refine failsToRead_bind (failsToRead_answered answer) fun modified => ?_
    cases String.fromUTF8? content with
    | none => exact failsToRead_throw trivial
    | some text => exact failsToRead_pure _

/-- Each step of a survey fails only if something cannot be read. -/
theorem composes_failsToRead : Composes (FailsToRead fs) := by
  constructor
  · exact failsToRead_pure
  · exact failsToRead_bind
  · exact fun _ => failsToRead_throw trivial
  · exact fun _ => failsToRead_ask _
  · exact fun _ => failsToRead_ask _
  · exact fun _ => failsToRead_bind (failsToRead_ask _) failsToRead_found?
  · exact fun _ => failsToRead_text?

end BundleAccess

/-- **The closure of a request cannot be formed only if something cannot be read.** -/
theorem Closure.failsToRead_extend {c : Convention} {fs : FileSystem} {dir : Path} (limit : Nat)
    (k : Closure) (request : Request) : BundleAccess.FailsToRead fs (extend c dir limit k request) :=
  BundleAccess.composes_failsToRead.extend limit k request

end ScriptBundle
