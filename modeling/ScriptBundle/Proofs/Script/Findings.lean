import ScriptBundle.Proofs.Dependency.Reference
import ScriptBundle.Proofs.Except
import ScriptBundle.Script.Manifest

/-!
# What is found in a script

Every scalar of a declaration is one finding: a dependency, or a diagnostic if it is no reference.  A
declared literal that cannot be read is one diagnostic.  The manifest of a script holds its findings in
their order, unless one of them is a reference whose number would have to be cut off inside a character.
With such a reference the script has no manifest.

## Main definitions

* `Finding`: a dependency, a diagnostic, or a reason for giving up.
* `Finding.ofSource`: the findings in a script.
* `Script.Declares`: a scalar that a script declares.
* `Manifest.holding`: the manifest that holds some findings.

## Main results

* `foldlM_add`: findings are taken in one by one up to the first reason for giving up.
* `Manifest.ofSource_spec`: **a script has the manifest of its findings, unless it declares a reference
  whose number would have to be cut off inside a character.**
-/

namespace ScriptBundle

/-- What comes out of one scalar of a declaration, or of a literal that cannot be read. -/
inductive Finding where
  | dependency (kind : DependencyKind) (id : ModuleId)
  | diagnostic (text : String)
  | abandonment (reason : Abandonment)

/-- A scalar in a literal that a self-registering script declares. -/
def Script.Declares (c : Convention) (source : List Char) (leaf : Value) : Prop :=
  Script.isSelfRegistering source c.marker = true ∧ ∃ kind : DependencyKind,
    ∃ d ∈ Script.declarations (kind.method c).toList source, ∃ v, d.read = .ok (some v) ∧ leaf ∈ v.leaves

namespace Finding

/-- The finding of a scalar. -/
def ofLeaf (c : Convention) (kind : DependencyKind) (leaf : Value) : Finding :=
  match Reference.ofValue c leaf with
  | .ok r => .dependency (r.kind.getD kind) r.id
  | .error (.error fault) => .diagnostic fault.message
  | .error (.abandoned reason) => .abandonment reason

/-- The findings of a declaration. -/
def ofDeclaration (c : Convention) (source : List Char) (kind : DependencyKind) (d : Declaration) :
    List Finding :=
  match d.read with
  | .error s => [.diagnostic (Manifest.malformed (kind.method c) source s)]
  | .ok none => []
  | .ok (some v) => v.leaves.map (ofLeaf c kind)

/-- The findings of a script, method by method. -/
def ofSource (c : Convention) (source : List Char) : List Finding :=
  if Script.isSelfRegistering source c.marker then
    DependencyKind.all.flatMap fun kind =>
      (Script.declarations (kind.method c).toList source).flatMap (ofDeclaration c source kind)
  else []

/-- The dependency of a kind that has been found. -/
def dependency? (kind : DependencyKind) : Finding → Option ModuleId
  | .dependency k id => if k = kind then some id else none
  | _ => none

/-- The diagnostic that a finding costs. -/
def diagnostic? : Finding → Option String
  | .diagnostic text => some text
  | _ => none

/-- The reason for giving up. -/
def reason? : Finding → Option Abandonment
  | .abandonment reason => some reason
  | _ => none

section Simp

variable (k kind : DependencyKind) (id : ModuleId) (text : String) (reason : Abandonment)

@[simp] theorem dependency?_dependency :
    (dependency k id).dependency? kind = if k = kind then some id else none := rfl

@[simp] theorem dependency?_diagnostic : (diagnostic text).dependency? kind = none := rfl

@[simp] theorem diagnostic?_dependency : (dependency k id).diagnostic? = none := rfl

@[simp] theorem diagnostic?_diagnostic : (diagnostic text).diagnostic? = some text := rfl

@[simp] theorem reason?_dependency : (dependency k id).reason? = none := rfl

@[simp] theorem reason?_diagnostic : (diagnostic text).reason? = none := rfl

@[simp] theorem reason?_abandonment : (abandonment reason).reason? = some reason := rfl

end Simp

variable {c : Convention} {source : List Char} {kind : DependencyKind} {finding : Finding}

theorem mem_ofSource_iff :
    finding ∈ ofSource c source ↔ Script.isSelfRegistering source c.marker = true ∧ ∃ kind : DependencyKind,
      ∃ d ∈ Script.declarations (kind.method c).toList source, finding ∈ ofDeclaration c source kind d := by
  have hall : ∀ kind, kind ∈ DependencyKind.all := by
    intro kind
    cases kind <;> simp [DependencyKind.all]
  unfold ofSource
  cases Script.isSelfRegistering source c.marker with
  | false => simp
  | true => simp [hall]

/-- The only reason for giving up is a reference whose number would have to be cut off inside a
character. -/
theorem exists_reason?_ofLeaf_iff {leaf : Value} :
    (∃ reason, (ofLeaf c kind leaf).reason? = some reason) ↔
      ∃ text, leaf = .text text ∧ Reference.CutsCharacter text := by
  rw [← Reference.ofValue_abandoned_iff (c := c)]
  unfold ofLeaf
  rcases Reference.ofValue c leaf with (fault | reason) | r <;> simp

theorem exists_reason?_ofSource_iff :
    (∃ finding ∈ ofSource c source, ∃ reason, finding.reason? = some reason) ↔
      ∃ text, Script.Declares c source (.text text) ∧ Reference.CutsCharacter text := by
  constructor
  · rintro ⟨finding, hmem, reason, hreason⟩
    obtain ⟨hself, kind, d, hd, hfinding⟩ := mem_ofSource_iff.1 hmem
    unfold ofDeclaration at hfinding
    split at hfinding
    · rw [List.mem_singleton.1 hfinding] at hreason
      cases hreason
    · cases hfinding
    · next v hread =>
      obtain ⟨leaf, hleaf, rfl⟩ := List.mem_map.1 hfinding
      obtain ⟨text, rfl, hcuts⟩ := exists_reason?_ofLeaf_iff.1 ⟨reason, hreason⟩
      exact ⟨text, ⟨hself, kind, d, hd, v, hread, hleaf⟩, hcuts⟩
  · rintro ⟨text, ⟨hself, kind, d, hd, v, hread, hleaf⟩, hcuts⟩
    refine ⟨ofLeaf c kind (.text text), mem_ofSource_iff.2 ⟨hself, kind, d, hd, ?_⟩, ?_⟩
    · rw [ofDeclaration, hread]
      exact List.mem_map_of_mem hleaf
    · exact exists_reason?_ofLeaf_iff.2 ⟨text, rfl, hcuts⟩

end Finding

namespace Manifest

/-- Take in one finding. -/
def add (m : Manifest) : Finding → Except Abandonment Manifest
  | .dependency kind id => .ok { m with dependencies := m.dependencies.push kind id }
  | .diagnostic text => .ok (m.note text)
  | .abandonment reason => .error reason

/-- A manifest with some more findings. -/
def holding (m : Manifest) (findings : List Finding) : Manifest where
  selfRegistering := m.selfRegistering
  dependencies :=
    { compile := m.dependencies.compile ++ findings.filterMap (Finding.dependency? .compile)
      launch := m.dependencies.launch ++ findings.filterMap (Finding.dependency? .launch)
      optional := m.dependencies.optional ++ findings.filterMap (Finding.dependency? .optional) }
  diagnostics := m.diagnostics ++ findings.filterMap Finding.diagnostic?

variable {c : Convention} {source : List Char} {kind : DependencyKind}

/-! ### Findings one by one -/

theorem addLeaf_eq : addLeaf c kind = fun m leaf => m.add (.ofLeaf c kind leaf) := by
  funext m leaf
  unfold addLeaf Finding.ofLeaf
  rcases Reference.ofValue c leaf with (fault | reason) | r <;> rfl

theorem addDeclaration_eq :
    addDeclaration c source kind = fun m d => (Finding.ofDeclaration c source kind d).foldlM add m := by
  funext m d
  unfold addDeclaration Finding.ofDeclaration
  rcases d.read with s | _ | v
  · rfl
  · rfl
  · show v.leaves.foldlM (addLeaf c kind) m = _
    rw [addLeaf_eq, List.foldlM_map]

theorem addKind_eq :
    addKind c source = fun m kind => ((Script.declarations (kind.method c).toList source).flatMap
      (Finding.ofDeclaration c source kind)).foldlM add m := by
  funext m kind
  rw [addKind, addDeclaration_eq, foldlM_flatMap]

/-- The manifest of a script is made finding by finding. -/
theorem ofSource_eq (c : Convention) (source : List Char) :
    ofSource c source = (Finding.ofSource c source).foldlM add
      { selfRegistering := Script.isSelfRegistering source c.marker } := by
  unfold ofSource Finding.ofSource
  cases Script.isSelfRegistering source c.marker with
  | false => rfl
  | true =>
    show DependencyKind.all.foldlM (addKind c source) _ = List.foldlM _ _ (DependencyKind.all.flatMap _)
    rw [addKind_eq, foldlM_flatMap]

theorem holding_dependency (m : Manifest) (id : ModuleId) (findings : List Finding) :
    holding { m with dependencies := m.dependencies.push kind id } findings
      = m.holding (.dependency kind id :: findings) := by
  cases kind <;> simp [holding, Dependencies.push, List.filterMap_cons]

theorem holding_diagnostic (m : Manifest) (text : String) (findings : List Finding) :
    (m.note text).holding findings = m.holding (.diagnostic text :: findings) := by
  simp [holding, note, List.filterMap_cons]

/-- Findings are taken in one by one, up to the first reason for giving up. -/
theorem foldlM_add (m : Manifest) (findings : List Finding) :
    findings.foldlM add m =
      match findings.findSome? Finding.reason? with
      | some reason => .error reason
      | none => .ok (m.holding findings) := by
  induction findings generalizing m with
  | nil => simp [holding, pure, Except.pure]
  | cons finding findings ih =>
    rw [List.foldlM_cons]
    cases finding with
    | dependency kind id =>
      show findings.foldlM add { m with dependencies := m.dependencies.push kind id } = _
      rw [ih, holding_dependency]
      rfl
    | diagnostic text =>
      show findings.foldlM add (m.note text) = _
      rw [ih, holding_diagnostic]
      rfl
    | abandonment reason => rfl

/-- **A reference is read or refused unless its number would have to be cut off inside a character.  A
script that declares no such reference has a manifest, and in it each scalar is a dependency or one
diagnostic, each literal that cannot be read is one diagnostic, and there is nothing else.** -/
theorem ofSource_spec (c : Convention) (source : List Char) :
    (∀ text, (∃ reason, Reference.parse c text = .error (.abandoned reason)) ↔
      Reference.CutsCharacter text) ∧
    ((∃ reason, ofSource c source = .error reason) ↔
      ∃ text, Script.Declares c source (.text text) ∧ Reference.CutsCharacter text) ∧
    ∀ m, ofSource c source = .ok m →
      m = holding { selfRegistering := Script.isSelfRegistering source c.marker }
        (Finding.ofSource c source) := by
  refine ⟨fun text => Reference.parse_abandoned_iff, ?_, ?_⟩
  · rw [← Finding.exists_reason?_ofSource_iff, ofSource_eq, foldlM_add]
    cases hreason : (Finding.ofSource c source).findSome? Finding.reason? with
    | none =>
      have hnone := List.findSome?_eq_none_iff.1 hreason
      constructor
      · rintro ⟨_, h⟩
        cases h
      · rintro ⟨finding, hmem, reason, h⟩
        cases (hnone finding hmem).symm.trans h
    | some reason =>
      obtain ⟨finding, hmem, h⟩ := List.exists_of_findSome?_eq_some hreason
      exact iff_of_true ⟨reason, rfl⟩ ⟨finding, hmem, reason, h⟩
  · intro m h
    rw [ofSource_eq, foldlM_add] at h
    split at h
    · cases h
    · exact (Except.ok.inj h).symm

/-- A script with a literal that cannot be read, a reference, and two scalars that are none. -/
def malformedSource : List Char :=
  ("((a,Script)=>\x7b_.setCompileDependencies(\x7b u: 0 ]);" ++
    "_.setLaunchDependencies([1, 'nope', true]);\x7d)();").toList

theorem ofSource_malformed :
    ∃ m, ofSource {} malformedSource = .ok m ∧
      m = holding { selfRegistering := Script.isSelfRegistering malformedSource "Script" }
        (Finding.ofSource {} malformedSource) ∧
      m.dependencies = { launch := [⟨".", 1⟩] } ∧ m.diagnostics.length = 3 := by
  have hm : (ofSource {} malformedSource).toOption.map (fun m => (m.dependencies, m.diagnostics.length))
      = some ({ launch := [⟨".", 1⟩] }, 3) := by
    decide +kernel
  obtain ⟨m, h, hm⟩ := exists_of_toOption hm
  obtain ⟨hdependencies, hdiagnostics⟩ := Prod.mk.inj hm
  exact ⟨m, h, (ofSource_spec {} malformedSource).2.2 m h, hdependencies, hdiagnostics⟩

/-- A reference of one letter with an accent is neither read nor refused, and a script that declares it has
no manifest. -/
theorem accent_abandoned :
    (¬ ∃ r, Reference.parse {} "é" = .ok r) ∧
    (¬ ∃ fault, Reference.parse {} "é" = .error (.error fault)) ∧
    ¬ ∃ m, ofSource {} "((a,Script)=>setOptionalDependencies('é'))()".toList = .ok m := by
  have hparse : Reference.parse {} "é" = .error (.abandoned (.cutInsideCharacter "é")) := rfl
  have hsource : (ofSource {} "((a,Script)=>setOptionalDependencies('é'))()".toList).toOption = none := by
    decide +kernel
  refine ⟨?_, ?_, ?_⟩
  · rintro ⟨r, h⟩
    cases hparse.symm.trans h
  · rintro ⟨fault, h⟩
    cases hparse.symm.trans h
  · rintro ⟨m, h⟩
    rw [h] at hsource
    cases hsource

end Manifest

end ScriptBundle
