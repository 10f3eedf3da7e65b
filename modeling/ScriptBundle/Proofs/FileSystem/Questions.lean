import Mathlib.Data.List.TakeWhile
import ScriptBundle.FileSystem.Memory
import ScriptBundle.Proofs.Sorted.Lookup
import ScriptBundle.Survey

/-!
# The questions of a computation

A computation asks questions one after the other, and what it asks depends on the answers.  If a file
system may change while it is asked, then any admitted answer may follow any other.  To show that all
questions are of a kind one follows the computation: each part asks questions of this kind only, and what
it ends with is of a kind that the next part can rely on.

## Main definitions

* `Access.Asks`: a computation may ask a question.
* `Access.StaysIn`: all questions and all results are of given kinds.
* `Access.questions`: the questions that are asked on a file system.
* `PlainNames`: the names in a directory hold no slashes.

## Main results

* `StaysIn.of_asks`: the questions of a computation are of the kind that has been shown.
* `staysIn_bind`, `staysIn_foldlM`: **following a computation part by part.**
* `asks_of_mem_questions`: what is asked on a file system may be asked.
-/

namespace ScriptBundle

/-! ### Questions that may be asked -/

namespace Access

variable {α β : Type} {admits : (q : Question) → q.Answer → Prop} {P : Question → Prop}
  {Q : α → Prop} {R : β → Prop} {x : Access α} {f : α → Access β}

/-- A computation may ask a question, if all questions before it get admitted answers. -/
inductive Asks (admits : (q : Question) → q.Answer → Prop) : Access α → Question → Prop where
  | now (q : Question) (next : q.Answer → Access α) : Asks admits (.ask q next) q
  | later {q : Question} {next : q.Answer → Access α} {answer : q.Answer} {r : Question} :
    admits q answer → Asks admits (next answer) r → Asks admits (.ask q next) r

/-- As long as answers are admitted, all questions satisfy `P`, and the result satisfies `Q`. -/
inductive StaysIn (admits : (q : Question) → q.Answer → Prop) (P : Question → Prop) (Q : α → Prop) :
    Access α → Prop where
  | done {a : α} : Q a → StaysIn admits P Q (.done a)
  | ask {q : Question} {next : q.Answer → Access α} :
    P q → (∀ answer, admits q answer → StaysIn admits P Q (next answer)) →
      StaysIn admits P Q (.ask q next)

/-- All questions are of the kind that has been shown. -/
theorem StaysIn.of_asks {q : Question} (h : StaysIn admits P Q x) (hq : Asks admits x q) : P q := by
  induction hq with
  | now q next =>
    cases h with
    | ask hnow _ => exact hnow
  | later hanswer _ ih =>
    cases h with
    | ask _ hlater => exact ih (hlater _ hanswer)

theorem StaysIn.bind (hx : StaysIn admits P Q x) (hf : ∀ a, Q a → StaysIn admits P R (f a)) :
    StaysIn admits P R (x >>= f) := by
  change StaysIn admits P R (x.bind f)
  induction hx with
  | done ha => exact hf _ ha
  | ask hnow _ ih => exact .ask hnow ih

/-- The questions that are asked on a file system, one after the other. -/
def questions (fs : FileSystem) : Access α → List Question
  | .done _ => []
  | .ask q next => q :: (next (fs q)).questions fs

/-- What is asked on a file system with admitted answers may be asked. -/
theorem asks_of_mem_questions {fs : FileSystem} (hfs : ∀ q, admits q (fs q)) {q : Question}
    (hq : q ∈ x.questions fs) : Asks admits x q := by
  induction x with
  | done a => cases hq
  | ask r next ih =>
    rcases List.mem_cons.1 hq with rfl | hq
    · exact .now q next
    · exact .later (hfs r) (ih (fs r) hq)

end Access

/-! ### Computations that may fail -/

namespace BundleAccess

variable {α β : Type} {admits : (q : Question) → q.Answer → Prop} {P : Question → Prop}
  {Q : α → Prop} {R : β → Prop} {x : BundleAccess α} {f : α → BundleAccess β} {path : Path}

/-- As long as answers are admitted, all questions satisfy `P`, and the result satisfies `Q` if there
is one. -/
def StaysIn (admits : (q : Question) → q.Answer → Prop) (P : Question → Prop) (Q : α → Prop)
    (x : BundleAccess α) : Prop :=
  Access.StaysIn admits P (fun result => ∀ a, result = .ok a → Q a) x.run

theorem staysIn_pure {a : α} (h : Q a) : StaysIn admits P Q (pure a : BundleAccess α) :=
  .done fun _ ha => Except.ok.inj ha ▸ h

theorem staysIn_throw (failure : Failure BundleFault) :
    StaysIn admits P Q (throw failure : BundleAccess α) := .done fun _ ha => nomatch ha

theorem staysIn_ask {q : Question} (h : P q) : StaysIn admits P (admits q) (ask q) :=
  .ask h fun _ hanswer => .done fun _ ha => Except.ok.inj ha ▸ hanswer

theorem staysIn_bind (hx : StaysIn admits P Q x) (hf : ∀ a, Q a → StaysIn admits P R (f a)) :
    StaysIn admits P R (x >>= f) := by
  refine Access.StaysIn.bind hx fun result hresult => ?_
  cases result with
  | error failure => exact staysIn_throw failure
  | ok a => exact hf a (hresult a rfl)

/-- What each step of a sequence stays in, the sequence stays in. -/
theorem staysIn_foldlM {step : β → α → BundleAccess β} {as : List α}
    (hstep : ∀ b, ∀ a ∈ as, R b → StaysIn admits P R (step b a)) {b : β} (hb : R b) :
    StaysIn admits P R (as.foldlM step b) := by
  induction as generalizing b with
  | nil => exact staysIn_pure hb
  | cons a as ih =>
    refine staysIn_bind (hstep b a List.mem_cons_self hb) fun b hb => ih (fun b a ha => ?_) hb
    exact hstep b a (List.mem_cons_of_mem _ ha)

/-! ### Files -/

theorem staysIn_answered (answer : Except FileFault α) :
    StaysIn admits P (fun a => answer = .ok a) (answered path answer) := by
  cases answer with
  | ok a => exact staysIn_pure rfl
  | error refusal => exact staysIn_throw _

theorem staysIn_found? (answer : Except FileFault α) :
    StaysIn admits P (fun found => ∀ a, found = some a → answer = .ok a) (found? path answer) := by
  cases answer with
  | ok a => exact staysIn_pure fun _ ha => Option.some.inj ha ▸ rfl
  | error refusal =>
    unfold found?
    dsimp only
    cases refusal.isNotFound with
    | true => exact staysIn_pure fun _ ha => nomatch ha
    | false => exact staysIn_throw _

/-- Reading a file asks for its content and its time. -/
theorem staysIn_text? (hcontent : P (.content path)) (hmodified : P (.modified path)) :
    StaysIn admits P (fun _ => True) (text? path) := by
  refine staysIn_bind (staysIn_ask hcontent) fun answer _ => ?_
  refine staysIn_bind (staysIn_found? answer) fun content _ => ?_
  cases content with
  | none => exact staysIn_pure trivial
  | some content =>
    refine staysIn_bind (staysIn_ask hmodified) fun answer _ => ?_
    refine staysIn_bind (staysIn_answered answer) fun modified _ => ?_
    cases String.fromUTF8? content with
    | none => exact staysIn_throw _
    | some text => exact staysIn_pure trivial

end BundleAccess

/-! ### Names without slashes -/

/-- The names in a directory hold no slashes; everything else is admitted. -/
def PlainNames : (q : Question) → q.Answer → Prop
  | .entries _, .ok names => ∀ name ∈ names, '/' ∉ name.toList
  | _, _ => True

/-- A tree of files lists plain names. -/
theorem MemoryTree.plainNames (t : MemoryTree) (q : Question) : PlainNames q (t.fileSystem q) := by
  cases q with
  | entries path =>
    change PlainNames (.entries path) (t.entries path)
    unfold entries
    dsimp only
    split_ifs
    · trivial
    · split
      · trivial
      · intro name hname
        obtain ⟨cs, hcs, rfl⟩ := List.mem_map.1 (Sorted.mem_distinct_iff.1 hname)
        obtain ⟨tail, -, rfl⟩ := List.mem_map.1 (List.mem_filter.1 hcs).1
        rw [String.toList_ofList]
        intro hslash
        simpa using List.mem_takeWhile_imp hslash
  | content path => trivial
  | modified path => trivial
  | isFile path => trivial
  | isDirectory path => trivial

end ScriptBundle
