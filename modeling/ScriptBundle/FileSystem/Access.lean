import ScriptBundle.Path
import ScriptBundle.Timestamp

/-!
# Access to files

Bundling never touches files itself: it is a description of which questions to ask a file system
and of what to do with the answers.  So one can speak about all questions that are asked, and run
the same description on any file system, also on one that answers the same question differently
each time.

## Main definitions

* `FileFault`: why a file system refuses a request, with its wording.
* `Question`, `Question.Answer`: what can be asked, and the answers to expect.
* `FileSystem`: an answer to every question.
* `Access α`: a computation of an `α` that asks questions.
* `Access.run`: its result on a file system.

## Main results

* `run_bind`: running a computation in two parts.
-/

namespace ScriptBundle

/-- Why a file system refuses a request. -/
inductive FileFault where
  /-- There is nothing at the path. -/
  | notFound (path : String)
  | permissionDenied (path : String)
  /-- What lies at the path is not of the expected kind. -/
  | wrongKind (path expected : String)
  /-- Reading or writing failed. -/
  | io (text : String)
  /-- A fault with a wording of its own. -/
  | custom (text : String)
  deriving DecidableEq, Repr, Inhabited

namespace FileFault

/-- The wording of a fault. -/
def message : FileFault → String
  | .notFound path => "Path not found: " ++ path
  | .permissionDenied path => "Permission denied: " ++ path
  | .wrongKind path expected => "Expected a " ++ expected ++ " at '" ++ path ++ "'"
  | .io text => "IO error: " ++ text
  | .custom text => text

/-- There is nothing at the path. -/
def isNotFound : FileFault → Bool
  | .notFound _ => true
  | _ => false

end FileFault

/-! ### Questions and answers -/

/-- What can be asked about a path. -/
inductive Question where
  /-- The content of a file. -/
  | content (path : Path)
  /-- The names of the entries of a directory, in ascending order. -/
  | entries (path : Path)
  /-- When a file was modified. -/
  | modified (path : Path)
  /-- There is a file. -/
  | isFile (path : Path)
  /-- There is a directory. -/
  | isDirectory (path : Path)
  deriving DecidableEq, Repr

/-- The answers to expect. -/
abbrev Question.Answer : Question → Type
  | .content _ => Except FileFault ByteArray
  | .entries _ => Except FileFault (List String)
  | .modified _ => Except FileFault Timestamp
  | .isFile _ => Bool
  | .isDirectory _ => Bool

/-- The path that a question is about. -/
def Question.path : Question → Path
  | .content path | .entries path | .modified path | .isFile path | .isDirectory path => path

/-- An answer to every question. -/
abbrev FileSystem : Type := (q : Question) → q.Answer

/-- The file system that gives `a` as its answer to the question `q`. -/
def FileSystem.answering (fs : FileSystem) (q : Question) (a : q.Answer) : FileSystem := fun r =>
  if h : q = r then h ▸ a else fs r

/-- A computation that asks questions. -/
inductive Access (α : Type) : Type where
  | done (a : α)
  | ask (q : Question) (next : q.Answer → Access α)

namespace Access

/-- First the one computation, then one that depends on its result. -/
def bind : Access α → (α → Access β) → Access β
  | .done a, f => f a
  | .ask q next, f => .ask q fun answer => (next answer).bind f

instance : Monad Access where
  pure := .done
  bind := Access.bind

/-- Ask a single question. -/
def question (q : Question) : Access q.Answer := .ask q .done

/-- The result of a computation on a file system. -/
def run (fs : FileSystem) : Access α → α
  | .done a => a
  | .ask q next => (next (fs q)).run fs

@[simp] theorem run_pure (fs : FileSystem) (a : α) : run fs (pure a : Access α) = a := rfl

@[simp] theorem run_question (fs : FileSystem) (q : Question) : run fs (question q) = fs q := rfl

@[simp] theorem run_bind (fs : FileSystem) (x : Access α) (f : α → Access β) :
    run fs (x >>= f) = run fs (f (run fs x)) := by
  change run fs (x.bind f) = _
  induction x with
  | done a => rfl
  | ask q next ih => exact ih (fs q)

end Access

end ScriptBundle
