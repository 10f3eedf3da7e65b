import ScriptBundle.Bundle
import ScriptBundle.Proofs.BitSet.Hexadecimal
import ScriptBundle.Proofs.Closure.LeastClosure
import ScriptBundle.Proofs.Graph.Reader

/-!
# The names of modules in a graph

A module is called by its category and number in a graph, with its weights behind them.  A category may be
any text, but numbers and weights are written in a few characters, so that the name tells where the category
ends.  So no two modules of a request have the same name.

## Main definitions

* `ModuleSet.nodeName`: the name of a module in a graph, without its quotes.
* `ModuleSet.statements`: what a graph says of a module.

## Main results

* `nodeName_injective`: **different modules of a request have different names in its graph.**
* `dot_eq_print`: a graph is written statement by statement.
-/

namespace ScriptBundle

variable {last : Char} {as bs as' bs' : List Char}

/-! ### Characters of numerals -/

theorem isAlphanum_digitChar : ∀ n < 16, (Nat.digitChar n).isAlphanum = true := by decide

theorem BitSet.isAlphanum_of_mem_hex {s : BitSet} {d : Char} (h : d ∈ s.hex) : d.isAlphanum = true := by
  have hdigits : ∀ d ∈ Nat.toDigits 16 s.toNat, d.isAlphanum = true :=
    forall_mem_toDigits (by decide) isAlphanum_digitChar _
  rw [hex_eq] at h
  rcases List.mem_cons.1 h with rfl | h
  · decide
  rcases List.mem_cons.1 h with rfl | h
  · decide
  · exact hdigits d h

/-- A text is cut at the last place where a character stands. -/
theorem append_cons_inj_of_not_mem {c : Char} (hbs : c ∉ bs) (hbs' : c ∉ bs')
    (h : as ++ c :: bs = as' ++ c :: bs') : as = as' ∧ bs = bs' := by
  rcases List.append_eq_append_iff.1 h with ⟨mid, rfl, hmid⟩ | ⟨mid, rfl, hmid⟩
  · cases mid with
    | nil => exact ⟨(List.append_nil as).symm, (List.cons.inj hmid).2⟩
    | cons a mid =>
      obtain ⟨-, rfl⟩ := List.cons.inj hmid
      exact absurd (List.mem_append_right mid List.mem_cons_self) hbs
  · cases mid with
    | nil => exact ⟨List.append_nil as', (List.cons.inj hmid).2.symm⟩
    | cons a mid =>
      obtain ⟨-, rfl⟩ := List.cons.inj hmid
      exact absurd (List.mem_append_right mid List.mem_cons_self) hbs'

namespace ModuleSet

open BundleAccess Survey

variable {c : Convention} {fs : FileSystem} {request : Request} {limit : Nat} {s : ModuleSet}

/-! ### Names -/

/-- The number of a module as a graph shows it. -/
def numberText (number : Option Nat) : List Char := number.elim ['?'] (Nat.toDigits 10)

/-- The bit and the weights of a module as a graph shows them. -/
def weightText (s : ModuleSet) (w : Weights s.size) (u : Fin s.size) : List Char :=
  (w.bits.get u).hex ++ [',', ' '] ++ (w.dependents.get u).hex ++ [',', ' ']
    ++ (w.compileDependents.get u).hex ++ [']']

/-- The name of a module in a graph, without its quotes. -/
def nodeName (s : ModuleSet) (w : Weights s.size) (u : Fin s.size) : List Char :=
  let m := s.modules.get u
  m.category.toList ++ '-' :: (numberText m.number ++ ' ' :: '[' :: s.weightText w u)

theorem label_eq_quote (w : Weights s.size) (u : Fin s.size) : s.label w u = Dot.quote (s.nodeName w u) := by
  simp [label, Dot.quote, nodeName, numberText, weightText]

theorem mem_numberText {number : Option Nat} {d : Char} (h : d ∈ numberText number) :
    d = '?' ∨ d.isDigit = true := by
  cases number with
  | none => exact .inl (List.mem_singleton.1 h)
  | some n => exact .inr (Nat.isDigit_of_mem_toDigits (by omega) (by omega) h)

theorem mem_weightText {w : Weights s.size} {u : Fin s.size} {d : Char} (h : d ∈ s.weightText w u) :
    d = ',' ∨ d = ' ' ∨ d = ']' ∨ d.isAlphanum = true := by
  simp only [weightText, List.mem_append, List.mem_cons, List.not_mem_nil, or_false] at h
  have hhex {set : BitSet} (h : d ∈ set.hex) : d = ',' ∨ d = ' ' ∨ d = ']' ∨ d.isAlphanum = true :=
    .inr (.inr (.inr (BitSet.isAlphanum_of_mem_hex h)))
  rcases h with ((((h | h | h) | h) | h | h) | h) | h
  · exact hhex h
  · exact .inl h
  · exact .inr (.inl h)
  · exact hhex h
  · exact .inl h
  · exact .inr (.inl h)
  · exact hhex h
  · exact .inr (.inr (.inl h))

theorem numberText_injective : Function.Injective numberText := by
  intro number number' h
  have hquestion (n : Nat) : ['?'] ≠ Nat.toDigits 10 n := by
    intro heq
    have hdigit : ('?' : Char).isDigit = true :=
      Nat.isDigit_of_mem_toDigits (by omega) (by omega) (heq ▸ List.mem_cons_self)
    cases hdigit
  cases number with
  | none =>
    cases number' with
    | none => rfl
    | some n => exact absurd h (hquestion n)
  | some n =>
    cases number' with
    | none => exact absurd h.symm (hquestion n)
    | some n' =>
      have hvalue : Numeral.digitsValue (Nat.toDigits 10 n) = Numeral.digitsValue (Nat.toDigits 10 n') :=
        congrArg Numeral.digitsValue h
      have hback (n : Nat) : Numeral.digitsValue (Nat.toDigits 10 n) = n :=
        Nat.ofDigitChars_toDigits (by omega) (by omega)
      rw [hback, hback] at hvalue
      rw [hvalue]

/-- The name of a module tells its category and its number. -/
theorem nodeName_eq {w : Weights s.size} {u v : Fin s.size} (h : s.nodeName w u = s.nodeName w v) :
    (s.modules.get u).category = (s.modules.get v).category
      ∧ (s.modules.get u).number = (s.modules.get v).number := by
  have hbracket (u : Fin s.size) : '[' ∉ s.weightText w u := by
    intro hmem
    rcases mem_weightText hmem with h | h | h | h <;> cases h
  have hdash (number : Option Nat) : '-' ∉ numberText number ++ [' '] := by
    intro hmem
    rcases List.mem_append.1 hmem with hmem | hmem
    · rcases mem_numberText hmem with h | h <;> cases h
    · cases List.mem_singleton.1 hmem
  have hsplit (u : Fin s.size) : s.nodeName w u = ((s.modules.get u).category.toList
      ++ '-' :: (numberText (s.modules.get u).number ++ [' '])) ++ '[' :: s.weightText w u := by
    simp [nodeName]
  rw [hsplit u, hsplit v] at h
  obtain ⟨hfront, -⟩ := append_cons_inj_of_not_mem (hbracket u) (hbracket v) h
  obtain ⟨hcategory, hnumber⟩ := append_cons_inj_of_not_mem (hdash _) (hdash _) hfront
  exact ⟨String.toList_inj.1 hcategory, numberText_injective (List.append_cancel_right hnumber)⟩

/-- **Different modules of a request have different names in its graph.** -/
theorem nodeName_injective (h : outcome fs (ofRequest c request limit) = .ok s) (w : Weights s.size) :
    Function.Injective (s.nodeName w) := by
  intro u v heq
  obtain ⟨hcategory, hnumber⟩ := nodeName_eq heq
  by_contra hne
  apply key_injective h hne
  cases (discovered_get h u).named with
  | numbered hu hkey =>
    cases (discovered_get h v).named with
    | numbered hv hkey' =>
      rw [hnumber, hv] at hu
      rw [hkey, hkey', hcategory, Option.some.inj hu]
    | requested hv _ _ =>
      rw [hnumber, hv] at hu
      cases hu
  | requested hu hkey hrequest =>
    cases (discovered_get h v).named with
    | numbered hv _ =>
      rw [hnumber, hv] at hu
      cases hu
    | requested _ hkey' hrequest' =>
      rw [hkey, hkey', Request.file.inj (hrequest.symm.trans hrequest')]

/-- The quotes in a name that are not preceded by a backslash are those of the category. -/
theorem bareQuotes_nodeName (w : Weights s.size) (u : Fin s.size) :
    Dot.bareQuotes '"' (s.nodeName w u) = Dot.bareQuotes '"' (s.modules.get u).category.toList := by
  have hrest : '"' ∉ '-' :: (numberText (s.modules.get u).number ++ ' ' :: '[' :: s.weightText w u) := by
    intro hmem
    simp only [List.mem_cons, List.mem_append] at hmem
    rcases hmem with h | h | h | h | h
    · cases h
    · rcases mem_numberText h with h | h <;> cases h
    · cases h
    · cases h
    · rcases mem_weightText h with h | h | h | h <;> cases h
  rw [nodeName, Dot.bareQuotes_append, Dot.bareQuotes_of_not_mem hrest, Nat.add_zero]

theorem getLastD_nodeName (w : Weights s.size) (u : Fin s.size) : (s.nodeName w u).getLastD last = ']' := by
  have hsplit : ∃ front, s.nodeName w u = front ++ [']'] :=
    ⟨_, by simp only [nodeName, weightText, ← List.cons_append, ← List.append_assoc]; rfl⟩
  obtain ⟨front, hfront⟩ := hsplit
  rw [hfront, List.getLastD_concat]

/-! ### Statements -/

/-- What a graph says of a module: one labelled edge for each of its dependencies, or the module alone. -/
def statements (s : ModuleSet) (name : Fin s.size → List Char) (u : Fin s.size) : List Dot.Statement :=
  if (s.edges u).isEmpty then [.node (name u)]
  else (s.edges u).map fun e => .edge (name u) (name e.2) e.1.name.toList

theorem isEmpty_links (u : Fin s.size) : (s.links.get u).isEmpty = (s.edges u).isEmpty := by
  rw [Dependencies.isEmpty, ← Dependencies.length_entries, edges]
  cases (s.links.get u).entries <;> rfl

theorem edgeLine_eq (w : Weights s.size) (u : Fin s.size) (e : DependencyKind × Fin s.size) :
    s.edgeLine w u e = (Dot.Statement.edge (s.nodeName w u) (s.nodeName w e.2) e.1.name.toList).line := by
  rw [edgeLine, label_eq_quote, label_eq_quote, Dot.Statement.line]
  simp [Dot.quote]

/-- A graph is written statement by statement. -/
theorem dot_eq_print (w : Weights s.size) (order : List (Fin s.size)) :
    s.dot w order = Dot.print ((s.sequence order).reverse.flatMap (s.statements (s.nodeName w))) := by
  have hlines : s.nodeLines w = fun u => (s.statements (s.nodeName w) u).flatMap Dot.Statement.line := by
    funext u
    rw [nodeLines, statements, isEmpty_links]
    split_ifs
    · rw [label_eq_quote, List.flatMap_singleton]
      rfl
    · rw [List.flatMap_map]
      exact List.flatMap_congr fun e _ => edgeLine_eq w u e
  unfold dot Dot.print
  rw [hlines, List.flatMap_assoc, List.append_assoc]

end ModuleSet

end ScriptBundle
