import ScriptBundle.Survey

/-!
# What a computation is told

A computation asks one question after the other, and a file system may answer whatever it likes, also if it
was asked the same before.  A file may be there when it is asked for its content, and gone when it is asked
for its time.

A bundle fails with a fault of the file system if the last answer was a refusal of some kinds.  To see
this, computations are put together of a few pieces that end with each such refusal.

## Main definitions

* `Reply`: a question with the answer to it.
* `Access.Ends`: a computation may end with a result, after some replies.
* `Refused`: the last replies refuse to read a path.
* `Access.TellsRefusals`: the pieces of computations that end with each refusal.

## Main results

* `ends_replies`: a computation ends with its result after the replies of a file system.
* `TellsRefusals.bind`: the pieces put together.
* `TellsRefusals.io_iff`: **such a computation fails with a fault of the file system if and only if the last
  replies refuse.**
-/

namespace ScriptBundle

/-- A question with the answer to it. -/
abbrev Reply : Type := (q : Question) × q.Answer

/-! ### Runs with any answers -/

namespace Access

variable {α : Type}

/-- A computation ends with a result after some replies, whatever they are. -/
inductive Ends : Access α → List Reply → α → Prop where
  | done (a : α) : Ends (.done a) [] a
  | ask {q : Question} {next : q.Answer → Access α} (answer : q.Answer) {log : List Reply} {a : α}
      (h : Ends (next answer) log a) : Ends (.ask q next) (⟨q, answer⟩ :: log) a

/-- The replies of a file system to the questions of a computation. -/
def replies (fs : FileSystem) : Access α → List Reply
  | .done _ => []
  | .ask q next => ⟨q, fs q⟩ :: (next (fs q)).replies fs

/-- A computation ends with its result after the replies of a file system. -/
theorem ends_replies (fs : FileSystem) (x : Access α) : x.Ends (x.replies fs) (x.run fs) := by
  induction x with
  | done a => exact .done a
  | ask q next ih => exact .ask (fs q) (ih (fs q))

end Access

/-! ### Refusals -/

variable {path p : Path} {fault : FileFault} {log : List Reply}

/-- These replies refuse to read a path.  It is no refusal that there is nothing to read, but it is one if
a file is gone when its content has been read. -/
inductive Refuses (path : Path) (fault : FileFault) : List Reply → Prop where
  | content (h : fault.isNotFound = false) : Refuses path fault [⟨.content path, .error fault⟩]
  | entries (h : fault.isNotFound = false) : Refuses path fault [⟨.entries path, .error fault⟩]
  | modified (content : ByteArray) :
      Refuses path fault [⟨.content path, .ok content⟩, ⟨.modified path, .error fault⟩]

/-- The last replies refuse to read a path. -/
def Refused (path : Path) (fault : FileFault) (log : List Reply) : Prop :=
  ∃ ending, Refuses path fault ending ∧ ending <:+ log

theorem not_refused_nil : ¬ Refused path fault [] := by
  rintro ⟨ending, hrefuses, hsuffix⟩
  rw [List.suffix_nil] at hsuffix
  subst hsuffix
  cases hrefuses

/-- A first reply that is no part of a refusal does not matter. -/
theorem refused_cons {reply : Reply} (h : ∀ log, ¬ Refuses path fault (reply :: log)) :
    Refused path fault (reply :: log) ↔ Refused path fault log := by
  unfold Refused
  constructor
  · rintro ⟨ending, hrefuses, hsuffix⟩
    rcases List.suffix_cons_iff.1 hsuffix with rfl | hsuffix
    · exact absurd hrefuses (h log)
    · exact ⟨ending, hrefuses, hsuffix⟩
  · rintro ⟨ending, hrefuses, hsuffix⟩
    exact ⟨ending, hrefuses, hsuffix.trans (List.suffix_cons reply log)⟩

theorem refused_isFile {answer : Bool} :
    Refused path fault (⟨.isFile p, answer⟩ :: log) ↔ Refused path fault log := by
  apply refused_cons
  intro log h
  cases h

theorem refused_isDirectory {answer : Bool} :
    Refused path fault (⟨.isDirectory p, answer⟩ :: log) ↔ Refused path fault log := by
  apply refused_cons
  intro log h
  cases h

theorem refused_modified {answer : Except FileFault Timestamp} :
    Refused path fault (⟨.modified p, answer⟩ :: log) ↔ Refused path fault log := by
  apply refused_cons
  intro log h
  cases h

theorem refused_listed {names : List String} :
    Refused path fault (⟨.entries p, .ok names⟩ :: log) ↔ Refused path fault log := by
  apply refused_cons
  intro log h
  cases h

theorem refused_not_listed {refusal : FileFault} (hrefusal : refusal.isNotFound = true) :
    Refused path fault (⟨.entries p, .error refusal⟩ :: log) ↔ Refused path fault log := by
  apply refused_cons
  intro log h
  cases h with
  | entries hfound => exact Bool.false_ne_true (hfound.symm.trans hrefusal)

theorem refused_not_there {refusal : FileFault} (hrefusal : refusal.isNotFound = true) :
    Refused path fault (⟨.content p, .error refusal⟩ :: log) ↔ Refused path fault log := by
  apply refused_cons
  intro log h
  cases h with
  | content hfound => exact Bool.false_ne_true (hfound.symm.trans hrefusal)

/-- A file that has been read is no refusal. -/
theorem refused_read {content : ByteArray} {modified : Timestamp} :
    Refused path fault (⟨.content p, .ok content⟩ :: ⟨.modified p, .ok modified⟩ :: log)
      ↔ Refused path fault log := by
  have hlater : Refused path fault (⟨.modified p, .ok modified⟩ :: log) ↔ Refused path fault log :=
    refused_modified
  rw [← hlater]
  constructor
  · rintro ⟨ending, hrefuses, hsuffix⟩
    rcases List.suffix_cons_iff.1 hsuffix with rfl | hsuffix
    · cases hrefuses
    · exact ⟨ending, hrefuses, hsuffix⟩
  · rintro ⟨ending, hrefuses, hsuffix⟩
    exact ⟨ending, hrefuses, hsuffix.trans (List.suffix_cons _ _)⟩

/-- The last replies refuse if they are a refusal and nothing behind the first of them refuses. -/
theorem refused_iff_refuses {reply : Reply} (h : ¬ Refused path fault log) :
    Refused path fault (reply :: log) ↔ Refuses path fault (reply :: log) := by
  constructor
  · rintro ⟨ending, hrefuses, hsuffix⟩
    rcases List.suffix_cons_iff.1 hsuffix with rfl | hsuffix
    · exact hrefuses
    · exact absurd ⟨ending, hrefuses, hsuffix⟩ h
  · intro hrefuses
    exact ⟨_, hrefuses, List.suffix_rfl⟩

/-- Replies refuse to read one path with one fault. -/
theorem refuses_iff_eq {refusal : FileFault} (h : Refuses p refusal log) :
    Refuses path fault log ↔ p = path ∧ refusal = fault := by
  constructor
  · intro h'
    cases h <;> cases h' <;> exact ⟨rfl, rfl⟩
  · rintro ⟨rfl, rfl⟩
    exact h

/-- The last replies refuse with what they refuse, if nothing behind the first of them refuses. -/
theorem Refuses.refused_iff {reply : Reply} {refusal : FileFault} (h : Refuses p refusal (reply :: log))
    (hlater : ¬ Refused path fault log) :
    Refused path fault (reply :: log) ↔ p = path ∧ refusal = fault := by
  rw [refused_iff_refuses hlater, refuses_iff_eq h]

/-- It is a refusal of any kind if there is no time of a file that has been read. -/
theorem refused_gone {content : ByteArray} {refusal : FileFault} :
    Refused path fault [⟨.content p, .ok content⟩, ⟨.modified p, .error refusal⟩]
      ↔ p = path ∧ refusal = fault := by
  have hlater : ¬ Refused path fault [⟨.modified p, .error refusal⟩] := by
    rw [refused_modified]
    exact not_refused_nil
  exact (Refuses.modified content).refused_iff hlater

/-- If it is a refusal that there is nothing, then the file was there when its content was read. -/
theorem Refused.exists_content (h : Refused path fault log) (hfault : fault.isNotFound = true) :
    ∃ content, [⟨.content path, .ok content⟩, ⟨.modified path, .error fault⟩] <:+ log := by
  obtain ⟨ending, hrefuses, hsuffix⟩ := h
  cases hrefuses with
  | content hfound =>
    rw [hfault] at hfound
    cases hfound
  | entries hfound =>
    rw [hfault] at hfound
    cases hfound
  | modified content => exact ⟨content, hsuffix⟩

/-! ### Computations that end with each refusal -/

namespace Access

variable {α β : Type}

/-- A computation is put together of questions, listings and readings, such that it ends with each
refusal. -/
inductive TellsRefusals : Access (Except (Failure BundleFault) α) → Prop where
  | done {result : Except (Failure BundleFault) α}
      (h : ∀ path fault, result ≠ .error (.error (.io path fault))) : TellsRefusals (.done result)
  | isFile (path : Path) {next : Bool → Access (Except (Failure BundleFault) α)}
      (h : ∀ answer, TellsRefusals (next answer)) : TellsRefusals (.ask (.isFile path) next)
  | isDirectory (path : Path) {next : Bool → Access (Except (Failure BundleFault) α)}
      (h : ∀ answer, TellsRefusals (next answer)) : TellsRefusals (.ask (.isDirectory path) next)
  | entries (path : Path)
      {next : Except FileFault (List String) → Access (Except (Failure BundleFault) α)}
      (listed : ∀ names, TellsRefusals (next (.ok names)))
      (absent : ∀ fault, fault.isNotFound = true → TellsRefusals (next (.error fault)))
      (refused : ∀ fault, fault.isNotFound = false →
        next (.error fault) = .done (.error (.error (.io path fault)))) :
      TellsRefusals (.ask (.entries path) next)
  | content (path : Path)
      {next : Except FileFault ByteArray → Access (Except (Failure BundleFault) α)}
      {later : ByteArray → Except FileFault Timestamp → Access (Except (Failure BundleFault) α)}
      (present : ∀ content, next (.ok content) = .ask (.modified path) (later content))
      (absent : ∀ fault, fault.isNotFound = true → TellsRefusals (next (.error fault)))
      (refused : ∀ fault, fault.isNotFound = false →
        next (.error fault) = .done (.error (.error (.io path fault))))
      (read : ∀ content modified, TellsRefusals (later content (.ok modified)))
      (gone : ∀ content fault,
        later content (.error fault) = .done (.error (.error (.io path fault)))) :
      TellsRefusals (.ask (.content path) next)

/-- A computation in two parts ends with each refusal if both parts do. -/
theorem TellsRefusals.bind {x : BundleAccess α} {f : α → BundleAccess β} (hx : TellsRefusals x.run)
    (hf : ∀ a, TellsRefusals (f a).run) : TellsRefusals (x >>= f).run := by
  change TellsRefusals (x.run.bind (ExceptT.bindCont f))
  generalize x.run = y at hx
  induction hx with
  | @done result h =>
    cases result with
    | error failure =>
      apply TellsRefusals.done
      intro path fault heq
      exact h path fault (congrArg Except.error (Except.error.inj heq))
    | ok a => exact hf a
  | isFile path _ ih => exact .isFile path ih
  | isDirectory path _ ih => exact .isDirectory path ih
  | entries path _ _ refused ihlisted ihabsent =>
    apply TellsRefusals.entries path ihlisted ihabsent
    intro fault hfault
    rw [refused fault hfault]
    rfl
  | @content path next later present _ refused _ gone ihabsent ihread =>
    apply TellsRefusals.content path
    · intro content
      rw [present content]
      exact rfl
    · exact ihabsent
    · intro fault hfault
      rw [refused fault hfault]
      rfl
    · exact ihread
    · intro content fault
      rw [gone content fault]
      rfl

theorem Ends.eq_of_done {a b : α} (h : Ends (.done a) log b) : log = [] ∧ b = a := by
  cases h
  exact ⟨rfl, rfl⟩

theorem io_eq_io_iff {refusal : FileFault} :
    (.error (.error (.io p refusal)) : Except (Failure BundleFault) α) = .error (.error (.io path fault))
      ↔ p = path ∧ refusal = fault := by
  simp

/-- **A computation that tells refusals fails with a fault of the file system if and only if the last replies
refuse.** -/
theorem TellsRefusals.io_iff {x : Access (Except (Failure BundleFault) α)} (hx : TellsRefusals x)
    {result : Except (Failure BundleFault) α} (h : Ends x log result) :
    result = .error (.error (.io path fault)) ↔ Refused path fault log := by
  induction hx generalizing log with
  | done hresult =>
    obtain ⟨rfl, rfl⟩ := h.eq_of_done
    exact iff_of_false (hresult path fault) not_refused_nil
  | isFile p _ ih =>
    cases h with
    | ask answer h => rw [refused_isFile, ih answer h]
  | isDirectory p _ ih =>
    cases h with
    | ask answer h => rw [refused_isDirectory, ih answer h]
  | entries p _ _ refused ihlisted ihabsent =>
    cases h with
    | ask answer h =>
      cases answer with
      | ok names => rw [refused_listed, ihlisted names h]
      | error refusal =>
        cases hrefusal : refusal.isNotFound with
        | true => rw [refused_not_listed hrefusal, ihabsent refusal hrefusal h]
        | false =>
          rw [refused refusal hrefusal] at h
          obtain ⟨rfl, rfl⟩ := h.eq_of_done
          rw [(Refuses.entries hrefusal).refused_iff not_refused_nil, io_eq_io_iff]
  | content p present _ refused _ gone ihabsent ihread =>
    cases h with
    | ask answer h =>
      cases answer with
      | error refusal =>
        cases hrefusal : refusal.isNotFound with
        | true => rw [refused_not_there hrefusal, ihabsent refusal hrefusal h]
        | false =>
          rw [refused refusal hrefusal] at h
          obtain ⟨rfl, rfl⟩ := h.eq_of_done
          rw [(Refuses.content hrefusal).refused_iff not_refused_nil, io_eq_io_iff]
      | ok content =>
        -- now the file may be gone
        rw [present content] at h
        cases h with
        | ask answer h =>
          cases answer with
          | ok modified => rw [refused_read, ihread content modified h]
          | error refusal =>
            rw [gone content refusal] at h
            obtain ⟨rfl, rfl⟩ := h.eq_of_done
            rw [refused_gone, io_eq_io_iff]

end Access

end ScriptBundle
