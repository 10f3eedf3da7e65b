import ScriptBundle.FileSystem.Memory
import ScriptBundle.Proofs.Path.Components

/-!
# The keys of joined paths

A file in a directory is stored under the key of the directory with its name behind it.  This is so
unless there is a backslash at the end of the directory: the backslash becomes a slash of the key, and
then two slashes stand in a row.  In the key of a path without backslashes they never do.

## Main definitions

* `Path.keyNames`, `Path.keyStart`: what a key is made of.
* `Tidy`: no two slashes stand in a row.

## Main results

* `tidy_key`: the key of a path without backslashes is tidy.
* `keyNames_join_eq`: the names of the key of a joined path.
* `key_join_name`: **the key of a path with a name behind it is that of the path and the name, or it is not
  tidy.**
-/

namespace ScriptBundle

variable {as bs cs : List Char} {ks : List (List Char)}

/-! ### Slashes in a row -/

/-- No two slashes stand in a row. -/
def Tidy (cs : List Char) : Prop := ¬ ['/', '/'] <:+: cs

instance : Decidable (Tidy cs) := inferInstanceAs (Decidable (¬ _))

theorem tidy_slash_cons (h : Tidy cs) (hhead : cs.head? ≠ some '/') : Tidy ('/' :: cs) := by
  intro htwo
  rcases List.infix_cons_iff.1 htwo with hstart | htwo
  · obtain ⟨rest, hrest⟩ := (List.cons_prefix_cons.1 hstart).2
    apply hhead
    rw [← hrest]
    rfl
  · exact h htwo

theorem tidy_append (has : '/' ∉ as) (h : Tidy bs) : Tidy (as ++ bs) := by
  induction as with
  | nil => exact h
  | cons a as ih =>
    rw [List.mem_cons, not_or] at has
    intro htwo
    rcases List.infix_cons_iff.1 htwo with hstart | htwo
    · exact has.1 (List.cons_prefix_cons.1 hstart).1
    · exact ih has.2 htwo

/-- Names with a slash between them are tidy, and there is no slash in front of them. -/
theorem tidy_intercalate (h : ∀ k ∈ ks, k ≠ [] ∧ '/' ∉ k) :
    Tidy (['/'].intercalate ks) ∧ (['/'].intercalate ks).head? ≠ some '/' := by
  induction ks with
  | nil => exact ⟨by decide, by simp⟩
  | cons k ks ih =>
    obtain ⟨⟨hne, hslash⟩, hks⟩ := List.forall_mem_cons.1 h
    obtain ⟨htidy, hhead⟩ := ih hks
    have hstart (rest : List Char) : (k ++ rest).head? ≠ some '/' := by
      obtain ⟨a, k, rfl⟩ := List.exists_cons_of_ne_nil hne
      intro hhead
      obtain rfl := Option.some.inj hhead
      exact hslash List.mem_cons_self
    by_cases hnil : ks = []
    · subst hnil
      rw [List.intercalate_singleton, ← List.append_nil k]
      exact ⟨tidy_append hslash (by decide), hstart []⟩
    · rw [List.intercalate_cons_of_ne_nil hnil, List.append_assoc]
      exact ⟨tidy_append hslash (tidy_slash_cons htidy hhead), hstart _⟩

/-- The characters of names with a slash between them are those of the names, apart from the slashes. -/
theorem mem_intercalate_iff {c : Char} (hc : c ≠ '/') :
    c ∈ ['/'].intercalate ks ↔ ∃ k ∈ ks, c ∈ k := by
  induction ks with
  | nil => simp
  | cons k ks ih =>
    by_cases hnil : ks = []
    · simp [hnil]
    · rw [List.intercalate_cons_of_ne_nil hnil, List.append_assoc, List.mem_append, List.singleton_append,
        List.mem_cons, or_iff_right hc, ih]
      simp

namespace MemoryTree

/-- The keys behind one that ends with a name go on with a slash. -/
theorem below_eq {key : String} (hempty : key ≠ "") (hlast : key.toList.getLast? ≠ some '/') :
    below key = key.toList ++ ['/'] := by
  have hne : key.toList.isEmpty = false := by simpa using hempty
  simp [below, hne, hlast]

end MemoryTree

namespace Path

variable {p q d : Path} {name : String} {components : List PathComponent}

/-! ### What a key is made of -/

/-- The names that a key is made of. -/
def keyNames (p : Path) : List (List Char) := (p.components.foldl keyStep []).reverse

/-- What stands in front of these names. -/
def keyStart (p : Path) : List Char := if p.isAbsolute then ['/'] else []

theorem toList_key (p : Path) : p.key.toList = p.keyStart ++ ['/'].intercalate p.keyNames :=
  String.toList_ofList

theorem backslash_not_mem_keyName (name : String) : '\\' ∉ keyName name := by
  intro hmem
  obtain ⟨c, -, hc⟩ := List.mem_map.1 hmem
  split_ifs at hc with hback
  · cases hc
  · exact hback hc

theorem keyName_eq (h : '\\' ∉ name.toList) : keyName name = name.toList := by
  refine (List.map_congr_left fun c hc => if_neg ?_).trans (List.map_id _)
  rintro rfl
  exact h hc

/-- The names of a key come from names in the path. -/
theorem exists_of_mem_foldl_keyStep {names : List (List Char)}
    (h : cs ∈ components.foldl keyStep names) :
    cs ∈ names ∨ ∃ name, .name name ∈ components ∧ cs = keyName name := by
  induction components generalizing names with
  | nil => exact .inl h
  | cons component components ih =>
    rcases ih h with hmem | ⟨name, hname, hcs⟩
    · cases component with
      | root => exact .inl hmem
      | here => exact .inl hmem
      | up => exact .inl (List.mem_of_mem_tail hmem)
      | name name =>
        rcases List.mem_cons.1 hmem with hcs | hmem
        · exact .inr ⟨name, List.mem_cons_self, hcs⟩
        · exact .inl hmem
    · exact .inr ⟨name, List.mem_cons_of_mem _ hname, hcs⟩

theorem exists_of_mem_keyNames (h : cs ∈ p.keyNames) :
    ∃ name, .name name ∈ p.components ∧ cs = keyName name :=
  (exists_of_mem_foldl_keyStep (List.mem_reverse.1 h)).resolve_left List.not_mem_nil

/-- A name in a path is a piece of its text between slashes. -/
theorem mem_splitOn_of_name_mem (h : .name name ∈ p.components) :
    name.toList ∈ p.text.toList.splitOn '/' ∧ name.toList ≠ [] := by
  obtain ⟨part, hpart, hidle, -, rfl⟩ := exists_part_of_name_mem h
  rw [String.toList_ofList]
  refine ⟨hpart, ?_⟩
  rintro rfl
  cases hidle

theorem ne_nil_of_mem_keyNames (h : cs ∈ p.keyNames) : cs ≠ [] := by
  obtain ⟨name, hname, rfl⟩ := exists_of_mem_keyNames h
  exact fun hnil => (mem_splitOn_of_name_mem hname).2 (List.map_eq_nil_iff.1 hnil)

theorem intercalate_keyNames_ne_nil (h : p.keyNames ≠ []) : ['/'].intercalate p.keyNames ≠ [] := by
  obtain ⟨k, ks, hnames⟩ := List.exists_cons_of_ne_nil h
  have hk : k ≠ [] := ne_nil_of_mem_keyNames (hnames ▸ List.mem_cons_self)
  rw [hnames]
  by_cases hks : ks = []
  · rwa [hks, List.intercalate_singleton]
  · rw [List.intercalate_cons_of_ne_nil hks, List.append_assoc]
    exact List.append_ne_nil_of_left_ne_nil hk _

/-- There are no backslashes in keys. -/
theorem backslash_not_mem_key (p : Path) : '\\' ∉ p.key.toList := by
  rw [toList_key, List.mem_append, not_or, mem_intercalate_iff (by decide)]
  constructor
  · unfold keyStart
    split_ifs
    · decide
    · exact List.not_mem_nil
  · rintro ⟨k, hk, hmem⟩
    obtain ⟨name, -, rfl⟩ := exists_of_mem_keyNames hk
    exact backslash_not_mem_keyName name hmem

/-- The names in a path without backslashes hold none. -/
theorem backslash_not_mem_of_name_mem (h : '\\' ∉ p.text.toList) (hname : .name name ∈ p.components) :
    '\\' ∉ name.toList := by
  intro hmem
  have htext : '\\' ∈ ['/'].intercalate (p.text.toList.splitOn '/') :=
    (mem_intercalate_iff (by decide)).2 ⟨_, (mem_splitOn_of_name_mem hname).1, hmem⟩
  rw [List.intercalate_splitOn] at htext
  exact h htext

/-- The names in the key of a path without backslashes hold no slashes. -/
theorem slash_not_mem_of_mem_keyNames (h : '\\' ∉ p.text.toList) (hk : cs ∈ p.keyNames) : '/' ∉ cs := by
  obtain ⟨name, hname, rfl⟩ := exists_of_mem_keyNames hk
  rw [keyName_eq (backslash_not_mem_of_name_mem h hname)]
  exact (isName_of_name_mem hname).slash_not_mem

/-- The key of a path without backslashes is tidy. -/
theorem tidy_key (h : '\\' ∉ p.text.toList) : Tidy p.key.toList := by
  obtain ⟨htidy, hhead⟩ := tidy_intercalate fun k (hk : k ∈ p.keyNames) =>
    ⟨ne_nil_of_mem_keyNames hk, slash_not_mem_of_mem_keyNames h hk⟩
  rw [toList_key, keyStart]
  split_ifs
  · exact tidy_slash_cons htidy hhead
  · exact htidy

/-- The key of a path without backslashes ends with a name, unless it is empty or the root. -/
theorem getLast?_key_ne (h : '\\' ∉ p.text.toList) (hempty : p.key ≠ "") (hroot : p.key ≠ "/") :
    p.key.toList.getLast? ≠ some '/' := by
  have hkey := toList_key p
  rcases p.keyNames.eq_nil_or_concat with hnames | ⟨names, last, hnames⟩
  · -- there are no names, so that nothing but a slash is left
    rw [hnames] at hkey
    exfalso
    rw [keyStart] at hkey
    split_ifs at hkey
    · exact hroot (String.toList_inj.1 hkey)
    · exact hempty (String.toList_inj.1 hkey)
  · rw [List.concat_eq_append] at hnames
    have hmem : last ∈ p.keyNames := hnames ▸ List.mem_append_right _ List.mem_cons_self
    obtain ⟨start, c, hlast⟩ := last.eq_nil_or_concat.resolve_left (ne_nil_of_mem_keyNames hmem)
    rw [List.concat_eq_append] at hlast
    subst hlast
    have hc : c ≠ '/' := by
      rintro rfl
      exact slash_not_mem_of_mem_keyNames h hmem (by simp)
    have hlast : ∃ before, p.key.toList = before ++ [c] := by
      rw [hkey, hnames]
      by_cases hnil : names = []
      · exact ⟨p.keyStart ++ start, by simp [hnil]⟩
      · rw [intercalate_append hnil (List.cons_ne_nil _ _), List.intercalate_singleton]
        exact ⟨p.keyStart ++ (['/'].intercalate names ++ '/' :: start), by simp⟩
    obtain ⟨before, hbefore⟩ := hlast
    rw [hbefore, List.getLast?_concat]
    exact fun heq => hc (Option.some.inj heq)

/-! ### The keys of joined paths -/

theorem isAbsolute_join (d : Path) {q : Path} (hq : q.isAbsolute = false) :
    (d.join q).isAbsolute = d.isAbsolute := by
  by_cases hd : d.text = ""
  · rw [join_of_isEmpty hd, hq, isAbsolute, hd]
    rfl
  · have hne : d.text.toList ≠ [] := by simpa using hd
    obtain ⟨c, cs, htext⟩ := List.exists_cons_of_ne_nil hne
    unfold join
    rw [if_neg (by simp [hq])]
    dsimp only
    split_ifs <;> simp [isAbsolute, htext]

theorem keyStart_join (p : Path) (hq : q.isAbsolute = false) : (p.join q).keyStart = p.keyStart := by
  rw [keyStart, isAbsolute_join p hq, keyStart]

theorem foldl_keyStep_lead (cs : List Char) (names : List (List Char)) :
    (lead cs).foldl keyStep names = names := by
  unfold lead
  split <;> rfl

/-- How a path starts adds no name to its key. -/
theorem keyNames_eq (p : Path) : p.keyNames = ((inner p.text.toList).foldl keyStep []).reverse := by
  rw [keyNames, components_eq, List.foldl_append, foldl_keyStep_lead]

/-- The second one of joined paths goes on from the names of the key of the first one. -/
theorem keyNames_join_eq (p : Path) (hq : q.isAbsolute = false) :
    (p.join q).keyNames = ((inner q.text.toList).foldl keyStep p.keyNames.reverse).reverse := by
  by_cases hp : p.text = ""
  · rw [join_of_isEmpty hp, keyNames_eq q, keyNames, components_of_isEmpty hp]
    rfl
  · rw [keyNames, components_join hp hq, List.foldl_append, keyNames, List.reverse_reverse]

/-- The names of the key of a path with a name behind it. -/
theorem keyNames_join (d : Path) (hname : IsName name) (hback : '\\' ∉ name.toList) :
    (d.join ⟨name⟩).keyNames = d.keyNames ++ [name.toList] := by
  rw [keyNames_join_eq d hname.isAbsolute_eq, hname.inner_eq]
  show (keyName name :: d.keyNames.reverse).reverse = _
  rw [List.reverse_cons, List.reverse_reverse, keyName_eq hback]

/-- The key of a path with a name behind it is made of the key of the path and the name. -/
theorem key_join_parts (d : Path) (hname : IsName name) (hback : '\\' ∉ name.toList) :
    (d.join ⟨name⟩).key.toList = d.keyStart ++ ['/'].intercalate (d.keyNames ++ [name.toList]) := by
  rw [toList_key, keyNames_join d hname hback, keyStart_join d hname.isAbsolute_eq]

/-- **The key of a path with a name behind it is that of the path and the name, or it is not tidy.** -/
theorem key_join_name (d : Path) (hname : IsName name) (hback : '\\' ∉ name.toList) :
    (d.join ⟨name⟩).key.toList = MemoryTree.below d.key ++ name.toList
      ∨ ¬ Tidy (d.join ⟨name⟩).key.toList := by
  have hkey := key_join_parts d hname hback
  have hdir := toList_key d
  by_cases hnames : d.keyNames = []
  · -- the directory is the root or the empty path
    left
    rw [hnames] at hkey hdir
    have hbelow : MemoryTree.below d.key = d.keyStart := by
      unfold MemoryTree.below
      rw [hdir]
      unfold keyStart
      split_ifs <;> rfl
    rw [hkey, hbelow, List.nil_append, List.intercalate_singleton]
  · rw [intercalate_append hnames (List.cons_ne_nil _ _), List.intercalate_singleton, ← List.append_assoc,
      ← hdir] at hkey
    by_cases hlast : d.key.toList.getLast? = some '/'
    · right
      obtain ⟨before, hbefore⟩ := List.getLast?_eq_some_iff.1 hlast
      rw [hkey, hbefore]
      exact fun htidy => htidy ⟨before, name.toList, by simp⟩
    · left
      have hempty : d.key ≠ "" := by
        rw [← String.toList_inj.ne, hdir]
        exact List.append_ne_nil_of_right_ne_nil _ (intercalate_keyNames_ne_nil hnames)
      rw [hkey, MemoryTree.below_eq hempty hlast, List.append_assoc]
      rfl

end Path

end ScriptBundle
