import Mathlib.Data.List.TakeWhile
import ScriptBundle.ModuleSet
import ScriptBundle.Path

/-!
# The components of joined paths

A path that is joined behind another one adds its components, unless it is absolute.  The path above a
file has all components but the last one.

## Main definitions

* `Path.lead`: the component for the start of a text, if it has one.
* `Path.inner`: the components of a text that count wherever the text stands.
* `Path.IsBelow`: a path goes on behind another one, without a step upwards.
* `Path.IsName`: a text that is a name as it stands.

## Main results

* `components_join`: the components of a path that is joined behind another one.
* `exists_parent`: the path above a file has all components but the last one.
* `IsBelow.join`: **what is joined behind a path leads to one below it, unless it starts at the root or
  has a step upwards.**
* `components_join_name`: a name is a component of its own, wherever it stands.
-/

namespace ScriptBundle.Path

/-- The component for the start of a text, if it has one. -/
def lead : List Char → List PathComponent
  | '/' :: _ => [.root]
  | ['.'] => [.here]
  | '.' :: '/' :: _ => [.here]
  | _ => []

/-- The components for those of some parts that count. -/
def counted (parts : List (List Char)) : List PathComponent :=
  (parts.filter fun part => !isIdle part).map partComponent

/-- The components of a text that count wherever the text stands. -/
def inner (cs : List Char) : List PathComponent := counted (cs.splitOn '/')

variable {p q d : Path} {as bs cs : List Char} {ks ls : List (List Char)} {name : String}

/-! ### Texts in pieces -/

theorem counted_append (ks ls : List (List Char)) : counted (ks ++ ls) = counted ks ++ counted ls := by
  rw [counted, List.filter_append, List.map_append]
  rfl

theorem counted_eq_nil (h : ∀ part ∈ ks, isIdle part = true) : counted ks = [] := by
  rw [counted, List.map_eq_nil_iff, List.filter_eq_nil_iff]
  intro part hpart
  simp [h part hpart]

theorem counted_of_not_isIdle {part : List Char} (h : isIdle part = false) :
    counted [part] = [partComponent part] := by
  rw [counted, List.filter_cons_of_pos (by simp [h])]
  rfl

theorem inner_append (as bs : List Char) : inner (as ++ '/' :: bs) = inner as ++ inner bs := by
  rw [inner, List.splitOn_append_cons_self, counted_append]
  rfl

theorem inner_nil : inner [] = [] := rfl

theorem inner_slash (cs : List Char) : inner ('/' :: cs) = inner cs := inner_append [] cs

theorem inner_dot_slash (cs : List Char) : inner ('.' :: '/' :: cs) = inner cs := inner_append ['.'] cs

theorem slash_not_mem_of_mem_splitOn (h : as ∈ cs.splitOn '/') : '/' ∉ as := by
  induction cs generalizing as with
  | nil =>
    rw [List.splitOn_nil, List.mem_singleton] at h
    simp [h]
  | cons c cs ih =>
    rw [List.splitOn_cons_eq_if_modifyHead] at h
    by_cases hc : (c == '/') = true
    · rw [if_pos hc, List.mem_cons] at h
      rcases h with rfl | h
      · exact List.not_mem_nil
      · exact ih h
    · rw [if_neg hc] at h
      cases hsplit : cs.splitOn '/' with
      | nil => exact absurd hsplit (List.splitOn_ne_nil _ _)
      | cons part parts =>
        rw [hsplit, List.modifyHead_cons, List.mem_cons] at h
        rw [hsplit] at ih
        rcases h with rfl | h
        · have hslash : c ≠ '/' := by simpa using hc
          exact List.not_mem_cons_of_ne_of_not_mem hslash.symm (ih List.mem_cons_self)
        · exact ih (List.mem_cons_of_mem _ h)

theorem intercalate_append (hks : ks ≠ []) (hls : ls ≠ []) :
    ['/'].intercalate (ks ++ ls) = ['/'].intercalate ks ++ '/' :: ['/'].intercalate ls := by
  induction ks with
  | nil => exact absurd rfl hks
  | cons k ks ih =>
    rw [List.cons_append, List.intercalate_cons_of_ne_nil (by simp [hls])]
    by_cases hks' : ks = []
    · simp [hks']
    · rw [ih hks', List.intercalate_cons_of_ne_nil hks']
      simp

/-- The parts of a text that is put together from parts are those parts. -/
theorem inner_intercalate (h : ∀ k ∈ ks, '/' ∉ k) : inner (['/'].intercalate ks) = counted ks := by
  by_cases hks : ks = []
  · rw [hks]
    rfl
  · rw [inner, List.splitOn_intercalate '/' h hks]

/-- How a text starts is settled by what stands before any of its slashes. -/
theorem lead_append (h : as ≠ []) (bs : List Char) : lead (as ++ '/' :: bs) = lead as := by
  match as with
  | [a] =>
    simp only [lead, List.cons_append, List.nil_append]
    split <;> simp_all
  | a :: b :: as =>
    simp only [lead, List.cons_append]
    split <;> simp_all

/-! ### Starts and parts -/

theorem lead_eq_nil (hslash : ∀ bs, cs ≠ '/' :: bs) (hdot : cs ≠ ['.'])
    (hdotSlash : ∀ bs, cs ≠ '.' :: '/' :: bs) : lead cs = [] := by
  unfold lead
  split <;> simp_all

/-- A path starts with a slash, with a single point, or with its first part. -/
theorem leadAndParts_cases (p : Path) :
    (∃ cs, p.text.toList = '/' :: cs ∧ p.leadAndParts = (['/'], cs.splitOn '/')) ∨
      (∃ parts, lead p.text.toList = [.here] ∧ inner p.text.toList = counted parts ∧
        (∀ part ∈ parts, '/' ∉ part) ∧ p.leadAndParts = (['.'], [] :: parts)) ∨
      (lead p.text.toList = [] ∧ p.leadAndParts = ([], p.text.toList.splitOn '/')) := by
  unfold leadAndParts
  generalize p.text.toList = cs
  split
  · next cs => exact .inl ⟨cs, rfl, rfl⟩
  · exact .inr (.inl ⟨[], rfl, rfl, by simp, rfl⟩)
  · next cs =>
    exact .inr (.inl ⟨_, rfl, inner_dot_slash cs, fun _ => slash_not_mem_of_mem_splitOn, rfl⟩)
  · next hslash hdot hdotSlash => exact .inr (.inr ⟨lead_eq_nil hslash hdot hdotSlash, rfl⟩)

/-- A path is made of its start and of what counts anywhere. -/
theorem components_eq (p : Path) : p.components = lead p.text.toList ++ inner p.text.toList := by
  have hcomponents : p.components = leadComponents p.leadAndParts.1 ++ counted p.leadAndParts.2 := rfl
  rw [hcomponents]
  rcases p.leadAndParts_cases with ⟨cs, htext, h⟩ | ⟨parts, hlead, hinner, -, h⟩ | ⟨hlead, h⟩
  · rw [h, htext, inner_slash]
    rfl
  · rw [h, hlead, hinner]
    rfl
  · rw [h, hlead]
    rfl

/-- A text whose first part is a point starts with it. -/
theorem lead_intercalate_here (ks : List (List Char)) :
    lead (['/'].intercalate (['.'] :: ks)) = [.here] := by
  by_cases hks : ks = []
  · rw [hks]
    rfl
  · rw [List.intercalate_cons_of_ne_nil hks]
    rfl

/-- If a text starts with its first part, then it does so wherever it is cut off. -/
theorem lead_intercalate_of_append (h : lead (['/'].intercalate (ks ++ ls)) = []) :
    lead (['/'].intercalate ks) = [] := by
  by_cases hks : ks = []
  · rw [hks]
    rfl
  · by_cases hls : ls = []
    · rwa [hls, List.append_nil] at h
    · rw [intercalate_append hks hls] at h
      by_cases hempty : ['/'].intercalate ks = []
      · rw [hempty]
        rfl
      · rwa [lead_append hempty] at h

/-- The components of a path that is cut off behind some of its parts. -/
theorem components_cut (h : p.leadAndParts.2 = ks ++ ls) :
    (Path.mk (String.ofList (p.leadAndParts.1 ++ ['/'].intercalate ks))).components
      = leadComponents p.leadAndParts.1 ++ counted ks := by
  rw [components_eq, String.toList_ofList]
  rcases p.leadAndParts_cases with ⟨cs, -, hcase⟩ | ⟨parts, -, -, hparts, hcase⟩ | ⟨hlead, hcase⟩
  · rw [hcase] at h ⊢
    have hks : ∀ k ∈ ks, '/' ∉ k := fun k hk =>
      slash_not_mem_of_mem_splitOn (h ▸ List.mem_append_left ls hk)
    rw [List.singleton_append, inner_slash, inner_intercalate hks]
    rfl
  · rw [hcase] at h ⊢
    cases ks with
    | nil => rfl
    | cons k ks =>
      -- the first part is the empty one between the point and the slash
      obtain ⟨rfl, hrest⟩ := List.cons.inj h
      have hks : ∀ k ∈ ['.'] :: ks, '/' ∉ k := by
        intro k hk
        rcases List.mem_cons.1 hk with rfl | hk
        · decide
        · exact hparts k (hrest ▸ List.mem_append_left ls hk)
      rw [List.singleton_append, ← List.intercalate_cons_cons_left, lead_intercalate_here,
        inner_intercalate hks]
      rfl
  · rw [hcase] at h ⊢
    have hks : ∀ k ∈ ks, '/' ∉ k := fun k hk =>
      slash_not_mem_of_mem_splitOn (h ▸ List.mem_append_left ls hk)
    have htext : p.text.toList = ['/'].intercalate (ks ++ ls) := by
      rw [← h, List.intercalate_splitOn]
    have hkept : lead (['/'].intercalate ks) = [] := by
      rw [htext] at hlead
      exact lead_intercalate_of_append hlead
    rw [List.nil_append, hkept, inner_intercalate hks]
    rfl

/-! ### The path above a file -/

theorem fileName?_eq_some_iff : p.fileName? = some name ↔ p.components.getLast? = some (.name name) := by
  unfold fileName?
  split <;> simp_all

theorem name_not_mem_lead (name : String) (cs : List Char) : .name name ∉ lead cs := by
  unfold lead
  split <;> simp

theorem not_mem_leadComponents (cs : List Char) : .name name ∉ leadComponents cs := by
  unfold leadComponents
  split_ifs <;> simp

/-- The parts of a path behind which it goes on with one that counts. -/
theorem exists_cut {parts : List (List Char)} {last : List Char} {before : List (List Char)}
    (h : parts.reverse.dropWhile isIdle = last :: before) :
    ∃ ls, parts = (before.dropWhile isIdle).reverse ++ ls ∧ counted ls = [partComponent last] := by
  have hlast : isIdle last = false := by
    have := List.head_dropWhile_not isIdle (l := parts.reverse) (by simp [h])
    simpa [h] using this
  have hbehind : counted (parts.reverse.takeWhile isIdle).reverse = [] :=
    counted_eq_nil fun part hpart => List.mem_takeWhile_imp (List.mem_reverse.1 hpart)
  have hbetween : counted (before.takeWhile isIdle).reverse = [] :=
    counted_eq_nil fun part hpart => List.mem_takeWhile_imp (List.mem_reverse.1 hpart)
  refine ⟨(before.takeWhile isIdle).reverse ++ [last] ++ (parts.reverse.takeWhile isIdle).reverse,
    ?_, ?_⟩
  · rw [← List.append_assoc, ← List.append_assoc, ← List.reverse_append, List.takeWhile_append_dropWhile,
      ← List.reverse_cons, ← h, ← List.reverse_append, List.takeWhile_append_dropWhile, List.reverse_reverse]
  · rw [counted_append, counted_append, hbetween, hbehind, counted_of_not_isIdle hlast]
    rfl

theorem parent?_eq {last : List Char} {before : List (List Char)}
    (h : p.leadAndParts.2.reverse.dropWhile isIdle = last :: before) :
    p.parent? = some ⟨String.ofList
      (p.leadAndParts.1 ++ ['/'].intercalate (before.dropWhile isIdle).reverse)⟩ := by
  rw [parent?]
  simp only [h]

/-- **The path above a file has all components but the last one.** -/
theorem exists_parent (h : p.fileName? = some name) :
    ∃ d, p.parent? = some d ∧ p.components = d.components ++ [.name name] := by
  have hcomponents : p.components = leadComponents p.leadAndParts.1 ++ counted p.leadAndParts.2 := rfl
  rw [fileName?_eq_some_iff, hcomponents] at h
  cases hlast : p.leadAndParts.2.reverse.dropWhile isIdle with
  | nil =>
    -- the start of a path is not a name
    have hidle : counted p.leadAndParts.2 = [] := by
      rw [List.dropWhile_eq_nil_iff] at hlast
      exact counted_eq_nil fun part hpart => hlast part (List.mem_reverse.2 hpart)
    rw [hidle, List.append_nil] at h
    exact absurd (List.mem_of_getLast? h) (not_mem_leadComponents _)
  | cons last before =>
    obtain ⟨ls, hparts, hls⟩ := exists_cut hlast
    have hcounted : counted p.leadAndParts.2
        = counted (before.dropWhile isIdle).reverse ++ [partComponent last] := by
      rw [← hls, ← counted_append, ← hparts]
    have hname : partComponent last = .name name := by
      rwa [hcounted, ← List.append_assoc, List.getLast?_concat, Option.some_inj] at h
    refine ⟨_, parent?_eq hlast, ?_⟩
    rw [components_cut hparts, hcomponents, hcounted, hname, List.append_assoc]

/-! ### Joined paths -/

theorem isAbsolute_eq_false (h : .root ∉ q.components) : q.isAbsolute = false := by
  rw [components_eq] at h
  unfold isAbsolute
  cases hcs : q.text.toList with
  | nil => rfl
  | cons c cs =>
    by_cases hc : c = '/'
    · rw [hcs, hc] at h
      exact absurd (List.mem_append_left _ List.mem_cons_self) h
    · simpa using hc

theorem lead_append_slash (as bs : List Char) : lead (as ++ '/' :: bs) = lead (as ++ ['/']) := by
  by_cases h : as = []
  · rw [h]
    rfl
  · rw [lead_append h, lead_append h]

theorem join_of_isEmpty (h : p.text = "") (q : Path) : p.join q = q := by
  unfold join
  split
  · rfl
  · rw [h]
    simp

/-- **The components of a path that is joined behind another one.** -/
theorem components_join (hp : p.text ≠ "") (hq : q.isAbsolute = false) :
    (p.join q).components = p.components ++ inner q.text.toList := by
  have hne : p.text.toList ≠ [] := by simpa using hp
  rw [join, if_neg (by simp [hq])]
  dsimp only
  by_cases hlast : p.text.toList.getLast? = some '/'
  · rw [if_pos (.inr hlast), components_eq, components_eq]
    obtain ⟨as, htext⟩ := List.getLast?_eq_some_iff.1 hlast
    rw [String.toList_append, htext, List.append_assoc, List.singleton_append, lead_append_slash,
      inner_append, inner_append, inner_nil, List.append_nil, List.append_assoc]
  · rw [if_neg (by simp [hlast, hne]), components_eq, components_eq, String.toList_append,
      String.toList_append, List.append_assoc]
    have hslash : "/".toList ++ q.text.toList = '/' :: q.text.toList := rfl
    rw [hslash, lead_append hne, inner_append, List.append_assoc]

/-! ### Paths below others -/

/-- The path goes on behind another one, without a step upwards. -/
def IsBelow (root p : Path) : Prop :=
  ∃ rest, p.components = root.components ++ rest ∧ ∀ x ∈ rest, x.isInside = true

theorem IsBelow.refl (p : Path) : p.IsBelow p := ⟨[], (List.append_nil _).symm, by simp⟩

theorem IsBelow.trans (hpq : p.IsBelow q) (hqd : q.IsBelow d) : p.IsBelow d := by
  obtain ⟨as, hq, has⟩ := hpq
  obtain ⟨bs, hd, hbs⟩ := hqd
  refine ⟨as ++ bs, by rw [hd, hq, List.append_assoc], fun x hx => ?_⟩
  exact (List.mem_append.1 hx).elim (has x) (hbs x)

theorem isInside_iff : p.isInside = true ↔ ∀ x ∈ p.components, x.isInside = true := List.all_eq_true

theorem isAbsolute_of_isInside (h : q.isInside = true) : q.isAbsolute = false :=
  isAbsolute_eq_false fun hroot => nomatch isInside_iff.1 h _ hroot

theorem partComponent_ne_root (part : List Char) : partComponent part ≠ .root := by
  unfold partComponent
  split_ifs <;> simp

/-- A relative path without steps upwards goes down only. -/
theorem isInside_of_not_isAbsolute (h : q.isAbsolute = false) (hup : .up ∉ q.components) :
    q.isInside = true := by
  refine isInside_iff.2 fun x hx => ?_
  cases x with
  | name name => rfl
  | here => rfl
  | up => exact absurd hx hup
  | root =>
    -- only a slash at the start is the root
    rw [components_eq, List.mem_append] at hx
    rcases hx with hx | hx
    · unfold lead at hx
      split at hx <;> simp_all [isAbsolute]
    · obtain ⟨part, -, hpart⟩ := List.mem_map.1 hx
      exact absurd hpart (partComponent_ne_root part)

theorem components_of_isEmpty (h : p.text = "") : p.components = [] := by
  rw [components_eq, h]
  rfl

/-- What stands behind a path in a joined one are components of the second path, its last ones at
least. -/
theorem exists_components_join (p : Path) (hq : q.isAbsolute = false) :
    ∃ start, (p.join q).components = p.components ++ (start ++ inner q.text.toList) ∧
      ∀ x ∈ start ++ inner q.text.toList, x ∈ q.components := by
  by_cases hp : p.text = ""
  · -- behind an empty path the start of the other one still counts
    refine ⟨lead q.text.toList, ?_, fun x hx => by rwa [components_eq]⟩
    rw [join_of_isEmpty hp, components_of_isEmpty hp, List.nil_append, components_eq]
  · refine ⟨[], components_join hp hq, fun x hx => ?_⟩
    rw [components_eq]
    exact List.mem_append_right _ hx

/-- **What is joined behind a path leads to one below it, unless it starts at the root or has a step
upwards.** -/
theorem IsBelow.join (p : Path) (hq : q.isInside = true) : p.IsBelow (p.join q) := by
  obtain ⟨start, hcomponents, hmem⟩ := exists_components_join p (isAbsolute_of_isInside hq)
  exact ⟨_, hcomponents, fun x hx => isInside_iff.1 hq x (hmem x hx)⟩

/-- If a path ends with a name, then this is so wherever the path stands. -/
theorem inner_of_fileName (h : q.fileName? = some name) :
    ∃ before, inner q.text.toList = before ++ [.name name] := by
  rw [fileName?_eq_some_iff, components_eq] at h
  rcases List.eq_nil_or_concat (inner q.text.toList) with hinner | ⟨before, last, hinner⟩
  · rw [hinner, List.append_nil] at h
    exact absurd (List.mem_of_getLast? h) (name_not_mem_lead name _)
  · rw [hinner, List.concat_eq_append, ← List.append_assoc, List.getLast?_concat, Option.some_inj] at h
    exact ⟨before, by rw [hinner, List.concat_eq_append, h]⟩

/-- The path above a file that lies below another path lies below it as well. -/
theorem IsBelow.exists_parent_join (p : Path) (hq : q.isInside = true)
    (hname : q.fileName? = some name) : ∃ d, (p.join q).parent? = some d ∧ p.IsBelow d := by
  obtain ⟨before, hbefore⟩ := inner_of_fileName hname
  obtain ⟨start, hcomponents, hmem⟩ := exists_components_join p (isAbsolute_of_isInside hq)
  have hjoin : (p.join q).components = p.components ++ (start ++ before) ++ [.name name] := by
    rw [hcomponents, hbefore]
    simp
  have hfile : (p.join q).fileName? = some name := by
    rw [fileName?_eq_some_iff, hjoin, List.getLast?_concat]
  obtain ⟨d, hparent, hd⟩ := exists_parent hfile
  refine ⟨d, hparent, start ++ before, ?_, fun x hx => ?_⟩
  · exact (List.append_inj' (hd.symm.trans hjoin) rfl).1
  · refine isInside_iff.1 hq x (hmem x ?_)
    rw [hbefore, ← List.append_assoc]
    exact List.mem_append_left _ hx

/-! ### Names -/

/-- The text is a name as it stands. -/
def IsName (name : String) : Prop := (Path.mk name).components = [.name name]

instance (name : String) : Decidable (IsName name) := inferInstanceAs (Decidable (_ = _))

theorem isName_of_part {part : List Char} (hslash : '/' ∉ part) (hidle : isIdle part = false)
    (hup : part ≠ ['.', '.']) : IsName (String.ofList part) := by
  have hlead : lead part = [] := by
    apply lead_eq_nil
    · rintro bs rfl
      exact hslash List.mem_cons_self
    · rintro rfl
      cases hidle
    · rintro bs rfl
      exact hslash (List.mem_cons_of_mem _ List.mem_cons_self)
  have hinner : inner part = [.name (String.ofList part)] := by
    rw [inner, List.splitOn_eq_singleton hslash, counted_of_not_isIdle hidle, partComponent, if_neg hup]
  rw [IsName, components_eq, String.toList_ofList, hlead, hinner]
  rfl

theorem IsName.inner_eq (h : IsName name) : inner name.toList = [.name name] := by
  rw [IsName, components_eq] at h
  rcases List.append_eq_singleton_iff.1 h with ⟨-, hinner⟩ | ⟨hlead, -⟩
  · exact hinner
  · exact absurd (hlead ▸ List.mem_cons_self) (name_not_mem_lead name name.toList)

theorem IsName.isAbsolute_eq (h : IsName name) : isAbsolute ⟨name⟩ = false := by
  apply isAbsolute_eq_false
  rw [h]
  simp

/-- A name is a component of its own, wherever it stands. -/
theorem components_join_name (p : Path) (h : IsName name) :
    (p.join ⟨name⟩).components = p.components ++ [.name name] := by
  by_cases hp : p.text = ""
  · rw [join_of_isEmpty hp, components_of_isEmpty hp, h, List.nil_append]
  · rw [components_join hp h.isAbsolute_eq, h.inner_eq]

/-- The names in a path are texts between its slashes. -/
theorem exists_part_of_name_mem (h : .name name ∈ p.components) :
    ∃ part ∈ p.text.toList.splitOn '/', isIdle part = false ∧ part ≠ ['.', '.']
      ∧ name = String.ofList part := by
  rw [components_eq] at h
  rcases List.mem_append.1 h with hlead | hinner
  · exact absurd hlead (name_not_mem_lead name _)
  · obtain ⟨part, hpart, hcomponent⟩ := List.mem_map.1 hinner
    obtain ⟨hmem, hcounts⟩ := List.mem_filter.1 hpart
    unfold partComponent at hcomponent
    split_ifs at hcomponent with hup
    obtain rfl := PathComponent.name.inj hcomponent
    exact ⟨part, hmem, by simpa using hcounts, hup, rfl⟩

theorem isName_of_name_mem (h : .name name ∈ p.components) : IsName name := by
  obtain ⟨part, hpart, hidle, hup, rfl⟩ := exists_part_of_name_mem h
  exact isName_of_part (slash_not_mem_of_mem_splitOn hpart) hidle hup

/-- There are no slashes in a name. -/
theorem IsName.slash_not_mem (h : IsName name) : '/' ∉ name.toList := by
  have hmem : .name name ∈ (Path.mk name).components := h ▸ List.mem_cons_self
  obtain ⟨part, hpart, -, -, rfl⟩ := exists_part_of_name_mem hmem
  rw [String.toList_ofList]
  exact slash_not_mem_of_mem_splitOn hpart

theorem IsName.ne_empty (h : IsName name) : name ≠ "" := by
  rintro rfl
  cases h

/-! ### Names of module files -/

/-- The name of a module file starts with a digit. -/
theorem exists_head?_of_moduleNumber? {extension name : String} {n : Nat}
    (h : moduleNumber? extension name = some n) :
    ∃ c, name.toList.head? = some c ∧ c.isDigit = true := by
  have hdigits : name.toList.takeWhile Char.isDigit ≠ [] := by
    intro hnil
    simp [moduleNumber?, hnil] at h
  cases hcs : name.toList with
  | nil => simp [hcs] at hdigits
  | cons c cs =>
    refine ⟨c, rfl, ?_⟩
    by_contra hc
    simp [hcs, hc] at hdigits

theorem isName_of_moduleNumber? {extension name : String} {n : Nat}
    (h : moduleNumber? extension name = some n) (hslash : '/' ∉ name.toList) : IsName name := by
  obtain ⟨c, hc, hdigit⟩ := exists_head?_of_moduleNumber? h
  obtain ⟨cs, htext⟩ := List.head?_eq_some_iff.1 hc
  have hdot : c ≠ '.' := by
    rintro rfl
    cases hdigit
  rw [← name.ofList_toList]
  apply isName_of_part hslash
  · simp [isIdle, htext, hdot]
  · intro hup
    exact hdot (List.cons.inj (htext.symm.trans hup)).1

/-- A module file has all components of its directory, and its name. -/
theorem components_join_of_moduleNumber? {extension name : String} {n : Nat} (dir : Path)
    (h : moduleNumber? extension name = some n) (hslash : '/' ∉ name.toList) :
    (dir.join ⟨name⟩).components = dir.components ++ [.name name] :=
  components_join_name dir (isName_of_moduleNumber? h hslash)

end ScriptBundle.Path
