import ScriptBundle.Proofs.Survey.Outcome
import ScriptBundle.Script.Manifest

/-!
# Canonical references

A category may have two names in references, but the ids that come from references name it by one of
them.  So the ids that modules declare are compared as they stand.

## Main definitions

* `ModuleId.IsCanonical`: the category of an id has its canonical name.
* `Manifest.DeclaresCanonical`: the same of all ids that a script declares.

## Main results

* `isCanonical_ofValue`: the ids of references are canonical.
* `declaresCanonical_ofSource`: **scripts declare canonical ids.**
-/

namespace ScriptBundle

variable {c : Convention}

/-- The category of an id has its canonical name. -/
def ModuleId.IsCanonical (c : Convention) (id : ModuleId) : Prop := c.canonical id.category = id.category

theorem Convention.canonical_defaultCategory (c : Convention) :
    c.canonical c.defaultCategory = c.defaultCategory := by
  rw [canonical, ite_self]

/-! ### References -/

namespace Reference

variable {text : String} {cs : List Char} {r : Reference}

theorem canonical_categoryOf {head : List Char} {category : String}
    (h : categoryOf c text head = .ok category) : c.canonical category = category := by
  unfold categoryOf at h
  cases hhead : head.reverse with
  | nil =>
    rw [hhead] at h
    obtain rfl := Except.ok.inj h
    exact c.canonical_defaultCategory
  | cons sep rest =>
    rw [hhead] at h
    dsimp only at h
    by_cases hsep : (!isSeparator sep) = true
    · rw [if_pos hsep] at h
      cases h
    · rw [if_neg hsep] at h
      by_cases hempty : rest.isEmpty = true
      · rw [if_pos hempty] at h
        cases h
      · rw [if_neg hempty] at h
        obtain rfl := Except.ok.inj h
        exact c.canonical_canonical _

theorem isCanonical_parseId {id : ModuleId} (h : parseId c text cs = .ok id) : id.IsCanonical c := by
  unfold parseId at h
  dsimp only at h
  split at h
  · cases h
  · split at h
    · cases h
    · split at h
      · cases h
      · split at h
        · cases h
        · next category hcategory =>
          obtain rfl := Except.ok.inj h
          exact canonical_categoryOf hcategory

theorem isCanonical_of_map_parseId {kind : Option DependencyKind}
    (h : (parseId c text cs).map (fun id => ⟨kind, id⟩) = .ok r) : r.id.IsCanonical c := by
  cases hid : parseId c text cs with
  | error failure =>
    rw [hid] at h
    cases h
  | ok id =>
    rw [hid] at h
    obtain rfl := Except.ok.inj h
    exact isCanonical_parseId hid

theorem isCanonical_parse (h : parse c text = .ok r) : r.id.IsCanonical c := by
  unfold parse at h
  dsimp only at h
  split at h
  · exact isCanonical_of_map_parseId h
  · split at h
    · cases h
    · exact isCanonical_of_map_parseId h

/-- The ids of references are canonical. -/
theorem isCanonical_ofValue {v : Value} (h : ofValue c v = .ok r) : r.id.IsCanonical c := by
  unfold ofValue at h
  split at h
  · exact isCanonical_parse h
  · dsimp only at h
    split at h
    · cases h
    · split at h
      · cases h
      · obtain rfl := Except.ok.inj h
        exact c.canonical_defaultCategory
  · cases h

end Reference

/-! ### Scripts -/

namespace Manifest

variable {m m' : Manifest} {kind : DependencyKind} {source : List Char}

/-- The ids that a script declares are canonical. -/
def DeclaresCanonical (c : Convention) (m : Manifest) : Prop :=
  ∀ kind, ∀ id ∈ m.dependencies.get kind, id.IsCanonical c

theorem declaresCanonical_addLeaf {leaf : Value} (hm : m.DeclaresCanonical c)
    (h : addLeaf c kind m leaf = .ok m') : m'.DeclaresCanonical c := by
  unfold addLeaf at h
  cases hr : Reference.ofValue c leaf with
  | error failure =>
    rw [hr] at h
    cases failure with
    | error fault =>
      obtain rfl := Except.ok.inj h
      exact hm
    | abandoned reason => cases h
  | ok r =>
    rw [hr] at h
    obtain rfl := Except.ok.inj h
    intro kind' id hid
    by_cases hkind : kind' = r.kind.getD kind
    · subst hkind
      rw [Dependencies.get_push_self, List.mem_append, List.mem_singleton] at hid
      rcases hid with hid | rfl
      · exact hm _ id hid
      · exact Reference.isCanonical_ofValue hr
    · rw [Dependencies.get_push_of_ne _ hkind] at hid
      exact hm kind' id hid

theorem declaresCanonical_addDeclaration {d : Declaration} (hm : m.DeclaresCanonical c)
    (h : addDeclaration c source kind m d = .ok m') : m'.DeclaresCanonical c := by
  unfold addDeclaration at h
  split at h
  · obtain rfl := Except.ok.inj h
    exact hm
  · obtain rfl := Except.ok.inj h
    exact hm
  · exact foldlM_keeps (fun _ _ _ _ hkept => declaresCanonical_addLeaf hkept) hm h

theorem declaresCanonical_addKind (hm : m.DeclaresCanonical c)
    (h : addKind c source m kind = .ok m') : m'.DeclaresCanonical c :=
  foldlM_keeps (fun _ _ _ _ hkept => declaresCanonical_addDeclaration hkept) hm h

/-- **Scripts declare canonical ids.** -/
theorem declaresCanonical_ofSource (h : ofSource c source = .ok m) : m.DeclaresCanonical c := by
  have hnone (m : Manifest) (hm : m.dependencies = {}) : m.DeclaresCanonical c := by
    intro kind id hid
    rw [hm] at hid
    cases kind <;> cases hid
  unfold ofSource at h
  split at h
  · exact foldlM_keeps (fun _ _ _ _ hkept => declaresCanonical_addKind hkept) (hnone _ rfl) h
  · obtain rfl := Except.ok.inj h
    exact hnone _ rfl

end Manifest

/-- The ids that a module declares are canonical, if they stand in its source. -/
theorem ScriptModule.isCanonical_of_mem_declared {m : ScriptModule} {kind : DependencyKind}
    {id : ModuleId} (hm : Manifest.ofSource c m.source.toList = .ok m.manifest)
    (h : (kind, id) ∈ m.declared) : id.IsCanonical c :=
  Manifest.declaresCanonical_ofSource hm kind id (Dependencies.mem_entries.1 h)

end ScriptBundle
