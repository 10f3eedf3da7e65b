import Mathlib.Algebra.GroupWithZero.Nat
import ScriptBundle.Proofs.Literal.Derivation
import ScriptBundle.Proofs.Script.Findings
import ScriptBundle.Proofs.Script.Occurrences

/-!
# The account of a script

No reference that a script declares is lost or counted twice: each scalar of a declared literal is either one
dependency or one diagnostic, and it is known of each dependency where it stands in its list.

## Main definitions

* `Value.Ordered`: the members of all objects in a value stand in key order.
* `Declaration.scalars`, `Declaration.outcome`: the scalars of a declaration, and how much comes out of it.
* `Reference.declared?`: what a scalar adds to the dependencies of a kind.

## Main results

* `Literal.Derives.ordered`: the values of literals are ordered.
* `Manifest.count_holding`: each finding is one dependency or one diagnostic.
* `Manifest.dependencies_of_not_selfRegistering`: a script that does not register itself has no dependencies.
* `Manifest.dependencies_ofSource`: **the dependencies and the diagnostics of a script are as many as the
  scalars that it declares and the literals that cannot be read, and each reference stands once in the list
  of its kind, method by method and from left to right.**
-/

namespace ScriptBundle

/-! ### Members in key order -/

/-- The members of all objects in a value stand in key order. -/
inductive Value.Ordered : Value → Prop where
  | null : Ordered .null
  | bool (b : Bool) : Ordered (.bool b)
  | number (n : Number) : Ordered (.number n)
  | text (s : String) : Ordered (.text s)
  | array {items : List Value} (h : ∀ v ∈ items, v.Ordered) : Ordered (.array items)
  | object {members : List (String × Value)} (hkeys : Sorted.Ascending members)
    (h : ∀ m ∈ members, m.2.Ordered) : Ordered (.object members)

namespace Literal

variable {depth : Nat} {ts : List Token} {v : Value} {cs : List Char} {front : Front}

/-- The values of literals are ordered. -/
theorem Derives.ordered (h : Derives depth ts v) : v.Ordered := by
  induction h with
  | text s => exact .text s
  | number n => exact .number n
  | isTrue => exact .bool true
  | isFalse => exact .bool false
  | null => exact .null
  | word => exact .text _
  | array h hts ih =>
    refine .array fun v hv => ?_
    obtain ⟨p, hp, rfl⟩ := List.mem_map.1 hv
    exact ih p hp
  | object hkeys h hts hentries ih =>
    refine .object hentries.ascending fun ⟨k, v⟩ hmem => ?_
    -- an entry is one of the members that have been written
    obtain ⟨before, after, heq, -⟩ := (hentries.mem_iff k v).1 hmem
    have hwritten : (k, v) ∈ before ++ (k, v) :: after := by simp
    rw [← heq] at hwritten
    obtain ⟨m, hm, hentry⟩ := List.mem_map.1 hwritten
    obtain ⟨-, rfl⟩ := Prod.mk.inj hentry
    exact ih m hm

theorem ordered_of_readFront (h : readFront cs = .ok front) : front.value.Ordered := by
  obtain ⟨ls, shorter, -, hvalue⟩ := readFront_eq_ok_iff.1 h
  have hpassed : Consumed (Derives maxDepth) ls front.value front.stop front.following :=
    derives_of_value ls _ hvalue
  obtain ⟨init, last, -, -, hderives⟩ := hpassed
  exact hderives.ordered

end Literal

/-! ### What comes out of a declaration -/

namespace Declaration

variable {d : Declaration} {v : Value}

/-- The scalars of a declaration, if it has a value. -/
def scalars (d : Declaration) : List Value :=
  match d.read with
  | .ok (some v) => v.leaves
  | _ => []

/-- How many dependencies and diagnostics come out of a declaration: one for each scalar, one if its literal
cannot be read, and none if it is a call whose literal is not followed by the closing parenthesis. -/
def outcome (d : Declaration) : Nat :=
  match d.read with
  | .error _ => 1
  | .ok none => 0
  | .ok (some v) => v.leaves.length

theorem ordered_of_read (h : d.read = .ok (some v)) : v.Ordered := by
  obtain ⟨front, hfront, hvalue⟩ := map_eq_ok_iff.1 h
  split at hvalue
  · cases hvalue
  · obtain rfl := Option.some.inj hvalue
    exact Literal.ordered_of_readFront hfront

end Declaration

/-- What a scalar in a declaration of some method adds to the dependencies of a kind. -/
def Reference.declared? (c : Convention) (method kind : DependencyKind) (leaf : Value) : Option ModuleId :=
  match Reference.ofValue c leaf with
  | .ok r => if r.kind.getD method = kind then some r.id else none
  | .error _ => none

namespace Finding

variable {c : Convention} {source : List Char} {method kind : DependencyKind} {d : Declaration}

theorem dependency?_ofLeaf (leaf : Value) :
    (ofLeaf c method leaf).dependency? kind = Reference.declared? c method kind leaf := by
  unfold ofLeaf Reference.declared?
  rcases Reference.ofValue c leaf with (fault | reason) | r <;> rfl

theorem length_ofDeclaration : (ofDeclaration c source method d).length = d.outcome := by
  unfold ofDeclaration Declaration.outcome
  rcases d.read with s | _ | v
  · rfl
  · rfl
  · exact List.length_map _

theorem filterMap_ofDeclaration :
    (ofDeclaration c source method d).filterMap (dependency? kind)
      = d.scalars.filterMap (Reference.declared? c method kind) := by
  unfold ofDeclaration Declaration.scalars
  rcases d.read with s | _ | v
  · rfl
  · rfl
  · show (v.leaves.map (ofLeaf c method)).filterMap (dependency? kind) = _
    rw [List.filterMap_map]
    exact congrArg (List.filterMap · v.leaves) (funext dependency?_ofLeaf)

variable (hself : Script.isSelfRegistering source c.marker = true)

include hself

theorem ofSource_of_isSelfRegistering :
    ofSource c source = DependencyKind.all.flatMap fun method =>
      (Script.declarations (method.method c).toList source).flatMap (ofDeclaration c source method) :=
  if_pos hself

theorem length_ofSource :
    (ofSource c source).length = (DependencyKind.all.map fun method =>
      ((Script.declarations (method.method c).toList source).map Declaration.outcome).sum).sum := by
  rw [ofSource_of_isSelfRegistering hself]
  simp only [List.length_flatMap, length_ofDeclaration]

theorem filterMap_ofSource :
    (ofSource c source).filterMap (dependency? kind) = DependencyKind.all.flatMap fun method =>
      (Script.declarations (method.method c).toList source).flatMap fun d =>
        d.scalars.filterMap (Reference.declared? c method kind) := by
  rw [ofSource_of_isSelfRegistering hself]
  simp only [List.filterMap_flatMap, filterMap_ofDeclaration]

end Finding

/-! ### The account -/

namespace Manifest

variable {c : Convention} {source : List Char} {m : Manifest} {findings : List Finding}

theorem get_holding (m : Manifest) (findings : List Finding) (kind : DependencyKind) :
    (m.holding findings).dependencies.get kind
      = m.dependencies.get kind ++ findings.filterMap (Finding.dependency? kind) := by
  cases kind <;> rfl

/-- Each finding is one dependency or one diagnostic, if none is a reason for giving up. -/
theorem count_holding (m : Manifest) (h : ∀ finding ∈ findings, finding.reason? = none) :
    (m.holding findings).dependencies.count + (m.holding findings).diagnostics.length
      = m.dependencies.count + m.diagnostics.length + findings.length := by
  induction findings generalizing m with
  | nil => simp [holding]
  | cons finding findings ih =>
    have htail : ∀ finding ∈ findings, finding.reason? = none := fun f hf => h f (List.mem_cons_of_mem _ hf)
    cases finding with
    | dependency kind id =>
      rw [← holding_dependency, ih _ htail, List.length_cons]
      cases kind <;> simp [Dependencies.push, Dependencies.count] <;> omega
    | diagnostic text =>
      rw [← holding_diagnostic, ih _ htail, List.length_cons]
      simp [note]
      omega
    | abandonment reason => cases h _ List.mem_cons_self

theorem eq_holding (h : ofSource c source = .ok m) :
    (∀ finding ∈ Finding.ofSource c source, finding.reason? = none) ∧
      m = holding { selfRegistering := Script.isSelfRegistering source c.marker }
        (Finding.ofSource c source) := by
  rw [ofSource_eq, foldlM_add] at h
  split at h
  · cases h
  · next hnone => exact ⟨List.findSome?_eq_none_iff.1 hnone, (Except.ok.inj h).symm⟩

/-- A script that does not register itself has no dependencies. -/
theorem dependencies_of_not_selfRegistering (h : ofSource c source = .ok m) (hself : m.selfRegistering = false) :
    m.dependencies = {} := by
  obtain ⟨-, rfl⟩ := eq_holding h
  have hnot : ¬ Script.isSelfRegistering source c.marker = true := by simpa [holding] using hself
  rw [Finding.ofSource, if_neg hnot]
  rfl

/-- **No reference that a script declares is lost or counted twice.**  The dependencies and the diagnostics
are as many as the scalars that are declared and the literals that cannot be read; the list of a kind holds
the references of that kind method by method, for each method from left to right, and in each literal with
the members of its objects in key order. -/
theorem dependencies_ofSource (hself : Script.isSelfRegistering source c.marker = true)
    (h : ofSource c source = .ok m) :
    m.dependencies.count + m.diagnostics.length = (DependencyKind.all.map fun method =>
      ((Script.declarations (method.method c).toList source).map Declaration.outcome).sum).sum ∧
    (∀ kind, m.dependencies.get kind = DependencyKind.all.flatMap fun method =>
      (Script.declarations (method.method c).toList source).flatMap fun d =>
        d.scalars.filterMap (Reference.declared? c method kind)) ∧
    (∀ name, ∃ places : List Place, places.Pairwise (fun p q => p.past.length < q.past.length) ∧
      List.Forall₂ (Script.DeclaredAt name source) places (Script.declarations name source)) ∧
    ∀ name, ∀ d ∈ Script.declarations name source, ∀ v, d.read = .ok (some v) → v.Ordered := by
  obtain ⟨hnone, rfl⟩ := eq_holding h
  refine ⟨?_, fun kind => ?_, fun name => Script.exists_places name source,
    fun _ _ _ _ hread => Declaration.ordered_of_read hread⟩
  · rw [count_holding _ hnone, Finding.length_ofSource hself]
    exact Nat.zero_add _
  · rw [get_holding, Finding.filterMap_ofSource hself]
    cases kind <;> rfl

/-- A convention with short names. -/
def briefly : Convention :=
  { compileMethod := "c", launchMethod := "l", optionalMethod := "o", marker := "S" }

/-- A script with an object whose members are not written in key order, a reference with a kind of its own,
a scalar that is no reference, a call whose literal is not followed by the closing parenthesis, and a literal
that cannot be read. -/
def accountedSource : List Char :=
  "((a,S)=>c(\x7bu:0,b:['launch:lib-2',true]\x7d)+o([4].x)+o([5 6]))()".toList

theorem dependencies_accountedSource :
    ∃ m, ofSource briefly accountedSource = .ok m ∧ m.dependencies.count + m.diagnostics.length = 4 ∧
      m.dependencies = { compile := [⟨".", 0⟩], launch := [⟨"lib", 2⟩] } := by
  have hself : Script.isSelfRegistering accountedSource briefly.marker = true := by decide +kernel
  have hm : (ofSource briefly accountedSource).toOption.map Manifest.dependencies
      = some { compile := [⟨".", 0⟩], launch := [⟨"lib", 2⟩] } := by
    decide +kernel
  obtain ⟨m, h, hm⟩ := exists_of_toOption hm
  have hcount := (dependencies_ofSource hself h).1
  exact ⟨m, h, hcount.trans (by decide +kernel), hm⟩

end Manifest

end ScriptBundle
