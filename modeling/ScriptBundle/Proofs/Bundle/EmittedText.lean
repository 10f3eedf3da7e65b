import Mathlib.Data.List.Forall2
import ScriptBundle.Bundle
import ScriptBundle.FileSystem.Memory
import ScriptBundle.Proofs.Survey.Outcome

/-!
# The text of a bundle

A bundle changes nothing in the scripts it holds but their last empty call, and that only in the loader
script and in modules that register themselves.  What is put between the parentheses of the call can be taken
out again, and then the script is the one that was read.

## Main definitions

* `IsLastCall`: a script cut around its last empty call.
* `FilledIn`: a script with arguments in its last empty call.
* `BundlePieces`: what a bundle is put together from.
* `ModuleSet.Assembles`: the pieces are those of a set of modules.

## Main results

* `cutCall_eq_some`, `cutCall_eq_none`: a script is cut at its last empty call.
* `FilledIn.unique`: there is one way to fill in the arguments.
* `exists_pieces_of_emit`: **a bundle is put together from the loader script, if one is needed and there, the
  modules in their order, and the call of the loader, if one is needed.**
-/

namespace ScriptBundle

open BundleAccess

/-- A script cut around its last empty call: between `before` and `after` stands `();`, and nowhere behind. -/
structure IsLastCall (source before after : List Char) : Prop where
  eq : source = before ++ '(' :: ')' :: ';' :: after
  last : ∀ before' after', source = before' ++ '(' :: ')' :: ';' :: after' → before'.length ≤ before.length

/-- A script with arguments in its last empty call, between the parentheses.  A script without an empty call
stays as it is. -/
inductive FilledIn (source arguments : List Char) : List Char → Prop where
  | call {before after : List Char} (h : IsLastCall source before after) :
    FilledIn source arguments (before ++ '(' :: (arguments ++ ')' :: ';' :: after))
  | unchanged (h : ∀ before after, source ≠ before ++ '(' :: ')' :: ';' :: after) :
    FilledIn source arguments source

variable {c : Convention} {fs : FileSystem} {source arguments body body' before after back left right : List Char}

/-! ### The last empty call -/

/-- An empty call that is not at the end is still there without the last character. -/
theorem exists_call_of_cons {d : Char} (hend : ∀ rest, d = ';' → back = ')' :: '(' :: rest → False)
    (heq : (d :: back).reverse = before ++ '(' :: ')' :: ';' :: after) :
    ∃ between, back.reverse = before ++ '(' :: ')' :: ';' :: between := by
  rcases List.eq_nil_or_concat after with rfl | ⟨between, d', rfl⟩
  · have hback : d :: back = ';' :: ')' :: '(' :: before.reverse := by
      rw [← List.reverse_reverse (d :: back), heq]
      simp
    obtain ⟨hd, hback⟩ := List.cons.inj hback
    exact (hend _ hd hback).elim
  · have hback : back.reverse ++ [d] = (before ++ '(' :: ')' :: ';' :: between) ++ [d'] := by
      simpa using heq
    exact ⟨between, (List.append_inj' hback rfl).1⟩

theorem cutCall_eq_some (h : cutCall after back = some (left, right)) :
    ∃ before between, IsLastCall back.reverse before between ∧ left = before ++ ['('] ∧
      right = ')' :: ';' :: (between ++ after) := by
  -- the script is read from its end, and `after` has been passed
  fun_induction cutCall after back with
  | case1 => cases h
  | case2 after back =>
    obtain ⟨rfl, rfl⟩ := Prod.mk.inj (Option.some.inj h)
    refine ⟨back.reverse, [], ⟨by simp, fun before' after' heq => ?_⟩, by simp, rfl⟩
    have hlength := congrArg List.length heq
    simp only [List.length_reverse, List.length_cons, List.length_append] at hlength ⊢
    omega
  | case3 after d back hne ih =>
    obtain ⟨before, between, hcall, hleft, hright⟩ := ih h
    refine ⟨before, between ++ [d], ⟨by simp [hcall.eq], fun before' after' heq => ?_⟩, hleft, by simp [hright]⟩
    -- a call at the end would have been cut
    obtain ⟨between', heq'⟩ := exists_call_of_cons hne heq
    exact hcall.last before' between' heq'

theorem cutCall_eq_none (h : cutCall after back = none) (before between : List Char) :
    back.reverse ≠ before ++ '(' :: ')' :: ';' :: between := by
  fun_induction cutCall after back generalizing between with
  | case1 => simp
  | case2 => cases h
  | case3 after d back hne ih =>
    intro heq
    obtain ⟨between', heq'⟩ := exists_call_of_cons hne heq
    exact ih h between' heq'

/-- Arguments go into the last empty call. -/
theorem filledIn_withArguments (source : String) (arguments : List Char) :
    FilledIn source.toList arguments (withArguments source arguments).toList := by
  rw [withArguments, inject]
  cases hcut : cutCall [] source.toList.reverse with
  | none =>
    have hnone := cutCall_eq_none hcut
    rw [List.reverse_reverse] at hnone
    exact .unchanged hnone
  | some p =>
    obtain ⟨left, right⟩ := p
    obtain ⟨before, after, hcall, rfl, rfl⟩ := cutCall_eq_some hcut
    rw [List.reverse_reverse] at hcall
    have hfilled : FilledIn source.toList arguments _ := .call hcall
    simpa using hfilled

/-- There is one last empty call, and one way to fill in the arguments. -/
theorem FilledIn.unique (h : FilledIn source arguments body) (h' : FilledIn source arguments body') :
    body = body' := by
  cases h with
  | @call before after hcall =>
    cases h' with
    | @call before' after' hcall' =>
      -- each of the two calls has no other one behind it
      have hlength : before.length = before'.length :=
        Nat.le_antisymm (hcall'.last _ _ hcall.eq) (hcall.last _ _ hcall'.eq)
      obtain ⟨rfl, htail⟩ := List.append_inj (hcall.eq.symm.trans hcall'.eq) hlength
      obtain rfl : after = after' := by simpa using htail
      rfl
    | unchanged hnone => exact absurd hcall.eq (hnone _ _)
  | unchanged hnone =>
    cases h' with
    | call hcall => exact absurd hcall.eq (hnone _ _)
    | unchanged _ => rfl

/-! ### The pieces of a bundle -/

/-- What a bundle contains of a module. -/
def ScriptModule.IsBody (c : Convention) (m : ScriptModule) (body : String) : Prop :=
  if m.isSelfRegistering then FilledIn m.source.toList (moduleArguments c m) body.toList else body = m.source

/-- What a bundle is put together from: the loader script, the modules, and the call of the loader. -/
structure BundlePieces where
  loader : Option String
  bodies : List String
  trailer : Option String

/-- The text of a bundle: each of its pieces on a new line. -/
def BundlePieces.text (p : BundlePieces) : String :=
  String.join ((p.loader.toList ++ p.bodies ++ p.trailer.toList).map fun piece => "\n" ++ piece)

namespace ModuleSet

/-- Where the loader script of a set belongs. -/
def loaderPath (c : Convention) (s : ModuleSet) : Path := s.dir.join ⟨c.loaderFile⟩

/-- Some module of the set registers itself. -/
def NeedsLoader (s : ModuleSet) : Prop := ∃ u, (s.modules.get u).isSelfRegistering = true

/-- There is no loader script. -/
def LacksLoader (c : Convention) (fs : FileSystem) (s : ModuleSet) : Prop :=
  ∃ refusal, fs (.content (s.loaderPath c)) = .error refusal ∧ refusal.isNotFound = true

/-- The pieces are those of the modules of a set in a given order. -/
structure Assembles (c : Convention) (fs : FileSystem) (s : ModuleSet) (order : List (Fin s.size))
    (p : BundlePieces) : Prop where
  /-- The loader script is there if it is needed and not missing. -/
  loader_isSome_iff : p.loader.isSome = true ↔ s.NeedsLoader ∧ ¬ s.LacksLoader c fs
  /-- It has the name of the request in its last empty call. -/
  loader : ∀ body ∈ p.loader, ∃ content source, fs (.content (s.loaderPath c)) = .ok content ∧
    String.fromUTF8? content = some source ∧ FilledIn source.toList (loaderArguments s.name) body.toList
  bodies : List.Forall₂ (fun u body => (s.modules.get u).IsBody c body) (s.sequence order) p.bodies
  trailer_isSome_iff : p.trailer.isSome = true ↔ s.NeedsLoader
  trailer : ∀ call ∈ p.trailer, call = c.loaderVariable ++ "." ++ c.loaderEntry ++ "();"

variable {s : ModuleSet} {order : List (Fin s.size)} {loader : Option Loader}

theorem hasSelfRegistering_iff : s.hasSelfRegistering = true ↔ s.NeedsLoader := by
  rw [hasSelfRegistering, Vector.any_eq_true]
  constructor
  · rintro ⟨i, hi, h⟩
    exact ⟨⟨i, hi⟩, h⟩
  · rintro ⟨u, h⟩
    exact ⟨u.val, u.isLt, h⟩

/-- The loader script has been read, or it is not needed, or it is not there. -/
theorem loader?_cases (h : outcome fs (s.loader? c) = .ok loader) :
    (loader = none ∧ (s.NeedsLoader → s.LacksLoader c fs)) ∨
    s.NeedsLoader ∧ ∃ content source modified, loader = some ⟨s.loaderPath c, source, modified⟩ ∧
      fs (.content (s.loaderPath c)) = .ok content ∧ fs (.modified (s.loaderPath c)) = .ok modified ∧
      String.fromUTF8? content = some source := by
  rw [loader?] at h
  split_ifs at h with hneeds
  · rw [outcome_bind, bind_eq_ok_iff] at h
    obtain ⟨text, htext, h⟩ := h
    rcases outcome_text?_cases htext with ⟨rfl, hmissing⟩ | ⟨content, source, modified, rfl, hcontent⟩
    · exact .inl ⟨(Except.ok.inj h).symm, fun _ => hmissing⟩
    · exact .inr ⟨hasSelfRegistering_iff.1 hneeds, content, source, modified, (Except.ok.inj h).symm, hcontent⟩
  · refine .inl ⟨(Except.ok.inj h).symm, fun hneeds' => ?_⟩
    exact absurd (hasSelfRegistering_iff.2 hneeds') hneeds

theorem isBody_body (c : Convention) (m : ScriptModule) : m.IsBody c (m.body c) := by
  rw [ScriptModule.IsBody, ScriptModule.body]
  split
  · exact filledIn_withArguments _ _
  · rfl

/-- The pieces of a bundle, once the loader script has been looked for. -/
theorem assembles_of_loader? (h : outcome fs (s.loader? c) = .ok loader) (order : List (Fin s.size)) :
    s.Assembles c fs order
      ⟨loader.map fun l => withArguments l.source (loaderArguments s.name),
        (s.sequence order).map fun u => (s.modules.get u).body c, s.trailer? c⟩ where
  loader_isSome_iff := by
    rw [Option.isSome_map]
    rcases loader?_cases h with ⟨rfl, hmissing⟩ | ⟨hneeds, content, source, modified, rfl, hcontent, -⟩
    · simpa using hmissing
    · have hthere : ¬ s.LacksLoader c fs := by
        rintro ⟨refusal, hrefusal, -⟩
        rw [hcontent] at hrefusal
        cases hrefusal
      simp [hneeds, hthere]
  loader body hbody := by
    obtain ⟨l, hl, rfl⟩ := Option.map_eq_some_iff.1 hbody
    rcases loader?_cases h with ⟨rfl, -⟩ | ⟨-, content, source, modified, rfl, hcontent, -, hsource⟩
    · cases hl
    · obtain rfl := Option.some.inj hl
      exact ⟨content, source, hcontent, hsource, filledIn_withArguments _ _⟩
  bodies := by
    rw [List.forall₂_map_right_iff, List.forall₂_same]
    exact fun u _ => isBody_body c (s.modules.get u)
  trailer_isSome_iff := by
    rw [← hasSelfRegistering_iff, trailer?]
    split <;> simp_all
  trailer call hcall := by
    rw [trailer?] at hcall
    split at hcall
    · exact (Option.some.inj hcall).symm
    · cases hcall

/-- **A bundle is put together from the loader script, if one is needed and there, the modules in their order,
and the call of the loader, if one is needed.** -/
theorem exists_pieces_of_emit {b : Bundle} (h : outcome fs (s.emit c order) = .ok b) :
    ∃ pieces : BundlePieces, b.text = pieces.text ∧ s.Assembles c fs order pieces ∧
      b.loader = pieces.loader.map fun _ => s.loaderPath c := by
  rw [emit, outcome_bind, bind_eq_ok_iff] at h
  obtain ⟨loader, hloader, h⟩ := h
  obtain rfl := Except.ok.inj h
  refine ⟨_, rfl, assembles_of_loader? hloader order, ?_⟩
  rw [Option.map_map]
  rcases loader?_cases hloader with ⟨rfl, -⟩ | ⟨-, content, source, modified, rfl, -⟩
  · rfl
  · rfl

end ModuleSet

/-- An application with a second empty call in a comment, a utility, and a loader script. -/
def chattyFiles : MemoryTree :=
  .ofFiles
    [(⟨"js/0_app.js"⟩, "((a,Script)=>setLaunchDependencies([1]))(); // é();".toUTF8),
     (⟨"js/1_util.js"⟩, "let util = 1;".toUTF8),
     (⟨"js/Loader.js"⟩, "(name => name)();".toUTF8)]

/-- The bundle of the application has all pieces. -/
theorem chattyFiles_pieces :
    ∃ s b, outcome chattyFiles.fileSystem (ModuleSet.ofRequest {} (.file ⟨"js/0_app.js"⟩)) = .ok s ∧
      outcome chattyFiles.fileSystem (s.emit {} []) = .ok b ∧ b.loader = some ⟨"js/Loader.js"⟩ ∧
      ∃ pieces : BundlePieces, b.text = pieces.text ∧ s.Assembles {} chattyFiles.fileSystem [] pieces ∧
        b.loader = pieces.loader.map fun _ => s.loaderPath {} := by
  have hemit : (outcome chattyFiles.fileSystem
      (ModuleSet.ofRequest {} (.file ⟨"js/0_app.js"⟩) >>= fun s => s.emit {} [])).map Bundle.loader
        = .ok (some ⟨"js/Loader.js"⟩) := by
    decide +kernel
  obtain ⟨b, hb, hloader⟩ := map_eq_ok_iff.1 hemit
  rw [outcome_bind, bind_eq_ok_iff] at hb
  obtain ⟨s, hs, hb⟩ := hb
  exact ⟨s, b, hs, hb, hloader, ModuleSet.exists_pieces_of_emit hb⟩

end ScriptBundle
