import ScriptBundle.Proofs.Bundle.SharedFiles
import ScriptBundle.Proofs.Graph.NodeNames
import ScriptBundle.Proofs.LoadOrder.Greedy

/-!
# Graphs of requests

The graph of a request has a node for each of its modules, and a labelled edge for each dependency.  It is
read as such unless a category holds a double quote: categories are written as they are, so that a quote that
is not preceded by a backslash ends the name of the node.

## Main definitions

* `ModuleSet.IsGraph`: a text is a graph of some modules.

## Main results

* `isGraph_of_isEscaped`: a graph is read as it is meant if the quotes in all categories are escaped.
* `isEscaped_of_isGraph`: if they are not, then the text is no graph of the modules.
* `Resolution.isGraph_dot_iff`: **the graph of a request can be read if and only if the quotes in all
  categories are escaped.**
-/

namespace ScriptBundle

open BundleAccess

variable {c : Convention} {fs : FileSystem} {request : Request} {n : List Char} {st : Dot.Statement}

instance (cs : List Char) : Decidable (Dot.IsEscaped cs) := decidable_of_iff _ Dot.isEscaped_iff.symm

theorem DependencyKind.bareQuotes_name (kind : DependencyKind) :
    Dot.bareQuotes '"' kind.name.toList = 0 ∧ kind.name.toList.getLastD '"' ≠ '\\' := by
  cases kind <;> decide

namespace ModuleSet

variable {s : ModuleSet} {w : Weights s.size} {order : List (Fin s.size)} {name : Fin s.size → List Char}
  {u : Fin s.size}

/-- The text is a graph of the modules, which have different names there: it says all about each of them and
nothing else. -/
def IsGraph (s : ModuleSet) (text : List Char) : Prop :=
  ∃ name : Fin s.size → List Char, Function.Injective name ∧
    ∃ statements, Dot.read text = some statements ∧
      statements.Perm ((List.finRange s.size).flatMap (s.statements name))

/-! ### Names in statements -/

theorem mem_names_statements (h : st ∈ s.statements name u) (hn : n ∈ st.names) :
    (∃ v, n = name v) ∨ ∃ kind : DependencyKind, n = kind.name.toList := by
  unfold statements at h
  split_ifs at h
  · obtain rfl := List.mem_singleton.1 h
    exact .inl ⟨u, List.mem_singleton.1 hn⟩
  · obtain ⟨e, -, rfl⟩ := List.mem_map.1 h
    simp only [Dot.Statement.names, List.mem_cons, List.not_mem_nil, or_false] at hn
    rcases hn with rfl | rfl | rfl
    · exact .inl ⟨u, rfl⟩
    · exact .inl ⟨e.2, rfl⟩
    · exact .inr ⟨e.1, rfl⟩

/-- The name of a module stands in what is said of it. -/
theorem name_mem_names_statements (name : Fin s.size → List Char) (u : Fin s.size) :
    name u ∈ (s.statements name u).flatMap Dot.Statement.names := by
  unfold statements
  split_ifs with hedges
  · exact List.mem_flatMap.2 ⟨_, List.mem_cons_self, List.mem_cons_self⟩
  · obtain ⟨e, es, hcons⟩ := List.exists_cons_of_ne_nil (mt List.isEmpty_iff.2 hedges)
    rw [hcons]
    exact List.mem_flatMap.2 ⟨_, List.mem_cons_self, List.mem_cons_self⟩

/-- How many names there are in a graph does not depend on them. -/
theorem length_names_statements (name name' : Fin s.size → List Char) (us : List (Fin s.size)) :
    ((us.flatMap (s.statements name)).flatMap Dot.Statement.names).length
      = ((us.flatMap (s.statements name')).flatMap Dot.Statement.names).length := by
  have hone (name : Fin s.size → List Char) (u : Fin s.size) :
      ((s.statements name u).flatMap Dot.Statement.names).length
        = if (s.edges u).isEmpty then 1 else (s.edges u).length * 3 := by
    unfold statements
    split_ifs
    · rfl
    · simp [List.flatMap_map, Dot.Statement.names, List.length_flatMap]
  rw [List.flatMap_assoc, List.flatMap_assoc, List.length_flatMap, List.length_flatMap]
  simp only [hone]

/-! ### Graphs that can be read -/

/-- What is said of the modules in an order is what is said of all of them. -/
theorem perm_statements (horder : (s.sequence order).Perm (List.finRange s.size))
    (name : Fin s.size → List Char) : ((s.sequence order).reverse.flatMap (s.statements name)).Perm
      ((List.finRange s.size).flatMap (s.statements name)) :=
  ((List.reverse_perm _).trans horder).flatMap_right _

/-- No name ends with a backslash, so that its closing quote ends it. -/
theorem getLastD_ne_backslash (us : List (Fin s.size)) :
    ∀ st ∈ us.flatMap (s.statements (s.nodeName w)), ∀ n ∈ st.names, n.getLastD '"' ≠ '\\' := by
  intro st hst n hn
  obtain ⟨u, -, hst⟩ := List.mem_flatMap.1 hst
  rcases mem_names_statements hst hn with ⟨v, rfl⟩ | ⟨kind, rfl⟩
  · rw [getLastD_nodeName]
    decide
  · exact kind.bareQuotes_name.2

/-- A graph is read as it is meant if the quotes in all categories are escaped. -/
theorem isGraph_of_isEscaped (horder : (s.sequence order).Perm (List.finRange s.size))
    (hnames : Function.Injective (s.nodeName w))
    (h : ∀ u, Dot.IsEscaped (s.modules.get u).category.toList) : s.IsGraph (s.dot w order) := by
  refine ⟨s.nodeName w, hnames, _, ?_, perm_statements horder (s.nodeName w)⟩
  rw [dot_eq_print]
  apply Dot.read_print
  intro st hst n hn
  refine ⟨?_, getLastD_ne_backslash _ st hst n hn⟩
  obtain ⟨u, -, hst⟩ := List.mem_flatMap.1 hst
  rcases mem_names_statements hst hn with ⟨v, rfl⟩ | ⟨kind, rfl⟩
  · rw [bareQuotes_nodeName]
    exact Dot.isEscaped_iff.1 (h v)
  · exact kind.bareQuotes_name.1

/-- If the quotes in some category are not escaped, then there are too many quotes in the text for a graph of
the modules. -/
theorem isEscaped_of_isGraph (horder : (s.sequence order).Perm (List.finRange s.size))
    (h : s.IsGraph (s.dot w order)) (u : Fin s.size) :
    Dot.IsEscaped (s.modules.get u).category.toList := by
  obtain ⟨name, -, statements, hread, hperm⟩ := h
  rw [dot_eq_print] at hread
  have hwritten := perm_statements horder (s.nodeName w)
  have hlength : (statements.flatMap Dot.Statement.names).length
      = (((s.sequence order).reverse.flatMap (s.statements (s.nodeName w))).flatMap
        Dot.Statement.names).length := by
    rw [(hperm.flatMap_right _).length_eq, (hwritten.flatMap_right _).length_eq]
    exact length_names_statements _ _ _
  have hbare := Dot.bareQuotes_eq_zero_of_read (getLastD_ne_backslash _) hread hlength
  have hmem : s.nodeName w u ∈ ((List.finRange s.size).flatMap (s.statements (s.nodeName w))).flatMap
      Dot.Statement.names := by
    rw [List.flatMap_assoc]
    exact List.mem_flatMap.2 ⟨u, List.mem_finRange u, name_mem_names_statements _ u⟩
  rw [Dot.isEscaped_iff, ← bareQuotes_nodeName w]
  exact hbare _ ((hwritten.flatMap_right _).mem_iff.2 hmem)

end ModuleSet

namespace Resolution

variable {r : Resolution}

/-- All modules stand in the order of a resolution. -/
theorem perm_sequence (h : outcome fs (ofRequest c request) = .ok r) :
    (r.set.sequence r.order).Perm (List.finRange r.set.size) := by
  obtain ⟨w, -, hr⟩ := map_eq_ok_iff.1 (outcome_ofRequest_eq_ok_iff.1 h).2
  have horder : r.order.Perm (List.finRange r.set.size) := by
    rw [← hr]
    exact ModuleSet.perm_loadOrder _ _
  have hlength : r.order.length = r.set.size := by rw [horder.length_eq, List.length_finRange]
  rwa [ModuleSet.sequence, if_pos hlength]

/-- **The graph of a request can be read if and only if the quotes in all categories are escaped.** -/
theorem isGraph_dot_iff (h : outcome fs (ofRequest c request) = .ok r) :
    r.set.IsGraph (r.set.dot r.weights r.order)
      ↔ ∀ u, Dot.IsEscaped (r.set.modules.get u).category.toList := by
  constructor
  · exact ModuleSet.isEscaped_of_isGraph (perm_sequence h)
  · exact ModuleSet.isGraph_of_isEscaped (perm_sequence h)
      (ModuleSet.nodeName_injective (outcome_set h) r.weights)

end Resolution

/-- An application that needs a utility of a category with an apostrophe in its name. -/
def apostropheFiles : MemoryTree :=
  .ofFiles
    [(⟨"js/0_app.js"⟩, "((a,Script)=>setOptionalDependencies([\"a'b/3\"]))();".toUTF8),
     (⟨"js/a'b/3_util.js"⟩, "let util = 3;".toUTF8)]

theorem apostropheFiles_isGraph :
    ∃ r, outcome apostropheFiles.fileSystem (Resolution.ofRequest {} (.file ⟨"js/0_app.js"⟩)) = .ok r ∧
      r.set.size = 2 ∧ r.set.IsGraph (r.set.dot r.weights r.order) := by
  have hset : (outcome apostropheFiles.fileSystem (ModuleSet.ofRequest {} (.file ⟨"js/0_app.js"⟩))).map
      (fun s => decide ((∀ u v, s.Edge u v → u.val < v.val) ∧
        (outcome apostropheFiles.fileSystem (s.loader? {})).map (Option.map Loader.path) = .ok none ∧
        s.size = 2 ∧ ∀ u, Dot.IsEscaped (s.modules.get u).category.toList)) = .ok true := by
    decide +kernel
  obtain ⟨-, r, -, hr, -, hsize, hescaped⟩ := Bundle.exists_of_checks hset
  exact ⟨r, hr, hsize, (Resolution.isGraph_dot_iff hr).2 hescaped⟩

/-- An application that needs a utility of a category with a double quote in its name. -/
def quotedFiles : MemoryTree :=
  .ofFiles
    [(⟨"js/0_app.js"⟩, "((a,Script)=>setOptionalDependencies(['a\"b/3']))();".toUTF8),
     (⟨"js/a\"b/3_util.js"⟩, "let util = 3;".toUTF8)]

/-- The graph of a request cannot be read whatever the names of its categories are. -/
theorem quotedFiles_not_isGraph :
    ∃ r, outcome quotedFiles.fileSystem (Resolution.ofRequest {} (.file ⟨"js/0_app.js"⟩)) = .ok r ∧
      ¬ r.set.IsGraph (r.set.dot r.weights r.order) := by
  have hset : (outcome quotedFiles.fileSystem (ModuleSet.ofRequest {} (.file ⟨"js/0_app.js"⟩))).map
      (fun s => decide ((∀ u v, s.Edge u v → u.val < v.val) ∧
        (outcome quotedFiles.fileSystem (s.loader? {})).map (Option.map Loader.path) = .ok none ∧
        ¬ ∀ u, Dot.IsEscaped (s.modules.get u).category.toList)) = .ok true := by
    decide +kernel
  obtain ⟨-, r, -, hr, -, hquote⟩ := Bundle.exists_of_checks hset
  exact ⟨r, hr, fun hgraph => hquote (ModuleSet.isEscaped_of_isGraph (Resolution.perm_sequence hr) hgraph)⟩

end ScriptBundle
