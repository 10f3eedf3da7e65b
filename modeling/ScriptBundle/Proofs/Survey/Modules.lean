import ScriptBundle.Proofs.Module.KeyOrder
import ScriptBundle.Proofs.Sorted.Lookup
import ScriptBundle.Proofs.Survey.Outcome

/-!
# Which modules a survey finds

A survey reads many files, entry by entry and category by category.  What it finds for an id does not
depend on the other ids: it is what the first file holds that has the number of the id in its name and
is there.

## Main definitions

* `Survey.firstOf`: the first of some places where something is found.
* `Survey.Adds`: a step takes in for each id that is not there what is found for it.
* `Survey.moduleIn`, `Survey.moduleOf`: what is found for an id in a list of entries, and in the directory
  of its category.
* `Survey.AsksFor`: a selection of a category asks for an id.

## Main results

* `adds_foldlM`: if each step takes in what is found in one place, then a sequence of steps takes in what
  is found first.
* `adds_modulesOf`: **a survey takes in for each id that is asked for and not known the module in the
  directory of its category.**
-/

namespace ScriptBundle.Survey

open BundleAccess

/-! ### Steps that take in modules -/

section Steps

variable {ε : Type} {α β : Type}

/-- The first of some places where something is found. -/
def firstOf (found : α → Except ε (Option β)) : List α → Except ε (Option β)
  | [] => .ok none
  | a :: as =>
    match found a with
    | .ok none => firstOf found as
    | result => result

theorem firstOf_cons_of_none {found : α → Except ε (Option β)} {a : α} (h : found a = .ok none)
    (as : List α) : firstOf found (a :: as) = firstOf found as := by
  rw [firstOf, h]

theorem firstOf_cons_of_some {found : α → Except ε (Option β)} {a : α} {b : β}
    (h : found a = .ok (some b)) (as : List α) : firstOf found (a :: as) = .ok (some b) := by
  rw [firstOf, h]

/-- If the same is found in all places where one looks, it is enough to look in one of them. -/
theorem firstOf_ite (P : α → Prop) [DecidablePred P] (result : Except ε (Option β))
    (as : List α) :
    firstOf (fun a => if P a then result else .ok none) as
      = if ∃ a ∈ as, P a then result else .ok none := by
  induction as with
  | nil => simp [firstOf]
  | cons a as ih =>
    rw [firstOf, ih]
    by_cases ha : P a
    · have hex : ∃ x ∈ a :: as, P x := ⟨a, List.mem_cons_self, ha⟩
      rw [if_pos ha, if_pos hex]
      rcases result with failure | found
      · rfl
      · cases found with
        | none => simp
        | some b => rfl
    · have hiff : (∃ x ∈ a :: as, P x) ↔ ∃ x ∈ as, P x := by simp [ha]
      rw [if_neg ha]
      simp only [hiff]

/-- If one looks in no place or in all of them, the first one is found in all of them. -/
theorem firstOf_ite_const (P : Prop) [Decidable P] (found : α → Except ε (Option β))
    (as : List α) :
    firstOf (fun a => if P then found a else .ok none) as
      = if P then firstOf found as else .ok none := by
  by_cases h : P
  · simp only [if_pos h]
  · simp only [if_neg h]
    induction as with
    | nil => rfl
    | cons a as ih => exact ih

/-- Where only places that pass a test have something to give, what is found first is found in the first
place that passes the test. -/
theorem firstOf_eq_find? {look : α → Except ε (Option β)} {test : α → Bool}
    (hnothing : ∀ a, test a = false → look a = .ok none)
    (hsomething : ∀ a, test a = true → look a ≠ .ok none) (as : List α) :
    firstOf look as = (as.find? test).elim (.ok none) look := by
  induction as with
  | nil => rfl
  | cons a as ih =>
    cases ha : test a with
    | false => rw [firstOf_cons_of_none (a := a) (hnothing a ha), ih, List.find?_cons_of_neg (by simp [ha])]
    | true =>
      rw [List.find?_cons_of_pos ha, Option.elim_some, firstOf]
      split
      · next hnone => exact absurd hnone (hsomething a ha)
      · rfl

/-- From `modules` to `modules'` it is taken in for each id that is not there what is found for it; for
other keys nothing changes. -/
structure Adds (found : ModuleId → Except ε (Option ScriptModule)) (modules modules' : ModuleMap) :
    Prop where
  new : ∀ id, Sorted.contains (.numbered id) modules = false →
    found id = .ok (Sorted.find? (.numbered id) modules')
  kept : ∀ key, (∀ id, key = .numbered id → Sorted.contains key modules = true) →
    Sorted.find? key modules' = Sorted.find? key modules

variable (found : α → ModuleId → Except ε (Option ScriptModule))
  {step : ModuleMap → α → Except ε ModuleMap} {as : List α} {modules modules' : ModuleMap}

theorem find?_eq_none {key : ModuleKey} (h : Sorted.contains key modules = false) :
    Sorted.find? key modules = none := by
  rwa [Sorted.contains, Option.isSome_eq_false_iff, Option.isNone_iff_eq_none] at h

theorem contains_congr {key : ModuleKey}
    (h : Sorted.find? key modules' = Sorted.find? key modules) :
    Sorted.contains key modules' = Sorted.contains key modules := by
  rw [Sorted.contains, Sorted.contains, h]

/-- The modules in key order have the numbers under which they are found. -/
theorem mem_numbered_iff {id : ModuleId} {m : ScriptModule} (hmodules : Sorted.Ascending modules) :
    (.numbered id, m) ∈ modules ↔ Sorted.find? (.numbered id) modules = some m := by
  refine ⟨Sorted.find?_of_mem hmodules, fun hfind => ?_⟩
  obtain ⟨key, hkey, hmem⟩ := Sorted.mem_of_find? hfind
  rwa [ModuleKey.compare_numbered.1 (Std.OrientedCmp.eq_symm hkey)] at hmem

/-- What has been taken in where there was nothing is what is found for its id. -/
theorem Adds.exists_of_mem {found : ModuleId → Except ε (Option ScriptModule)} {key : ModuleKey}
    {m : ScriptModule} (h : Adds found [] modules) (hmodules : Sorted.Ascending modules)
    (hm : (key, m) ∈ modules) : ∃ id, key = .numbered id ∧ found id = .ok (some m) := by
  have hfind := Sorted.find?_of_mem hmodules hm
  cases key with
  | file path =>
    -- a file without a number is no id, and so it is not taken in
    rw [h.kept (.file path) fun _ hkey => nomatch hkey] at hfind
    cases hfind
  | numbered id => exact ⟨id, rfl, hfind ▸ h.new id rfl⟩

/-- What is found only for what is asked for. -/
theorem ite_eq_some_iff {p : Prop} [Decidable p] {x : Except ε (Option β)} {b : β} :
    (if p then x else .ok none) = .ok (some b) ↔ p ∧ x = .ok (some b) := by
  by_cases hp : p
  · rw [if_pos hp, and_iff_right hp]
  · rw [if_neg hp]
    exact iff_of_false (fun h => nomatch Except.ok.inj h) fun h => hp h.1

/-- If each step takes in what is found in one place, then a sequence of steps takes in what is found
first. -/
theorem adds_foldlM
    (hstep : ∀ modules a modules', step modules a = .ok modules' → Adds (found a) modules modules')
    (h : as.foldlM step modules = .ok modules') :
    Adds (fun id => firstOf (found · id) as) modules modules' := by
  induction as generalizing modules with
  | nil =>
    obtain rfl := Except.ok.inj h
    refine ⟨fun id hid => ?_, fun _ _ => rfl⟩
    rw [firstOf, find?_eq_none hid]
  | cons a as ih =>
    rw [List.foldlM_cons, bind_eq_ok_iff] at h
    obtain ⟨modules₁, ha, hrest⟩ := h
    have hfirst := hstep modules a modules₁ ha
    have hlater := ih hrest
    constructor
    · intro id hid
      have hfound := hfirst.new id hid
      cases hmodule : Sorted.find? (.numbered id) modules₁ with
      | none =>
        rw [hmodule] at hfound
        rw [firstOf_cons_of_none (a := a) hfound]
        exact hlater.new id (by rw [Sorted.contains, hmodule]; rfl)
      | some m =>
        -- what is found first stays
        rw [hmodule] at hfound
        rw [firstOf_cons_of_some (a := a) hfound, hlater.kept _ fun _ _ => by
          rw [Sorted.contains, hmodule]; rfl, hmodule]
    · intro key hkey
      have hkept := hfirst.kept key hkey
      rw [hlater.kept key fun id hid => ?_, hkept]
      rw [contains_congr hkept]
      exact hkey id hid

/-- A sequence of steps fails only if it fails to find some id. -/
theorem exists_of_foldlM_error
    (hstep : ∀ modules a modules', step modules a = .ok modules' → Adds (found a) modules modules')
    (herror : ∀ modules a e, step modules a = .error e →
      ∃ id, Sorted.contains (.numbered id) modules = false ∧ found a id = .error e)
    {e : ε} (h : as.foldlM step modules = .error e) :
    ∃ id, Sorted.contains (.numbered id) modules = false ∧ firstOf (found · id) as = .error e := by
  induction as generalizing modules with
  | nil => cases h
  | cons a as ih =>
    rw [List.foldlM_cons, bind_eq_error_iff] at h
    rcases h with ha | ⟨modules₁, ha, hrest⟩
    · obtain ⟨id, hid, hfound⟩ := herror modules a e ha
      exact ⟨id, hid, by rw [firstOf, hfound]⟩
    · have hfirst := hstep modules a modules₁ ha
      obtain ⟨id, hid, hfound⟩ := ih hrest
      -- what is not there now was not there before, so that nothing was found in the first place
      have hnew : Sorted.contains (.numbered id) modules = false := by
        cases hold : Sorted.contains (.numbered id) modules
        · rfl
        · rw [contains_congr (hfirst.kept _ fun _ _ => hold), hold] at hid
          cases hid
      have hnone : found a id = .ok none := by
        rw [hfirst.new id hnew, find?_eq_none hid]
      exact ⟨id, hnew, by rw [firstOf_cons_of_none (a := a) hnone, hfound]⟩

end Steps

variable {c : Convention} {fs : FileSystem} {known : ModuleKey → Bool} {dir : Path}
  {id : ModuleId} {category : String} {selection : Selection} {modules modules' : ModuleMap}

/-! ### The entries of a directory -/

/-- What is found for an id at one entry of the directory of its category. -/
def moduleAt (c : Convention) (fs : FileSystem) (dir : Path) (id : ModuleId) (name : String) :
    Except (Failure BundleFault) (Option ScriptModule) :=
  if moduleNumber? c.extension name = some id.number ∧ fs (.isFile (dir.join ⟨name⟩)) = true then
    outcome fs (load c (dir.join ⟨name⟩) (.numbered id) id.category (some id.number))
  else .ok none

/-- What is found for an id in a list of entries of the directory of its category. -/
def moduleIn (c : Convention) (fs : FileSystem) (dir : Path) (id : ModuleId) (names : List String) :
    Except (Failure BundleFault) (Option ScriptModule) := firstOf (moduleAt c fs dir id) names

/-- A selection of a category asks for an id, and the id is not known. -/
def AsksFor (known : ModuleKey → Bool) (category : String) (selection : Selection)
    (id : ModuleId) : Prop :=
  category = id.category ∧ selection.includes id.number = true ∧ known (.numbered id) = false

instance : Decidable (AsksFor known category selection id) :=
  inferInstanceAs (Decidable (_ ∧ _ ∧ _))

/-- What is found at an entry for the ids that are asked for. -/
def askedAt (c : Convention) (fs : FileSystem) (known : ModuleKey → Bool) (dir : Path)
    (category : String) (selection : Selection) (name : String) (id : ModuleId) :
    Except (Failure BundleFault) (Option ScriptModule) :=
  if AsksFor known category selection id then moduleAt c fs dir id name else .ok none

/-- An entry is taken in if its number is asked for, there is no module of that id yet, and it is a
file. -/
theorem outcome_addEntry (name : String) :
    outcome fs (addEntry c known dir category selection modules name)
      = match moduleNumber? c.extension name with
        | none => .ok modules
        | some n =>
          if AsksFor known category selection ⟨category, n⟩ ∧
              Sorted.contains (.numbered ⟨category, n⟩) modules = false then
            (moduleAt c fs dir ⟨category, n⟩ name).map fun found =>
              found.elim modules fun m => Sorted.insert (.numbered ⟨category, n⟩) m modules
          else .ok modules := by
  unfold addEntry
  cases hnumber : moduleNumber? c.extension name with
  | none => rfl
  | some n =>
    dsimp only
    by_cases hopen : AsksFor known category selection ⟨category, n⟩ ∧
        Sorted.contains (.numbered ⟨category, n⟩) modules = false
    · have htest : (!selection.includes n || known (.numbered ⟨category, n⟩) ||
          Sorted.contains (.numbered ⟨category, n⟩) modules) = false := by
        obtain ⟨⟨-, hselected, hknown⟩, hpresent⟩ := hopen
        rw [hselected, hknown, hpresent]
        rfl
      rw [htest, if_neg Bool.false_ne_true, outcome_bind, outcome_ask, if_pos hopen, moduleAt]
      change outcome fs (if (!fs (.isFile (dir.join ⟨name⟩))) = true then _ else _) = _
      cases hfile : fs (.isFile (dir.join ⟨name⟩)) with
      | false =>
        simp only [Bool.not_false, if_true, Bool.false_eq_true, and_false, if_false]
        rfl
      | true =>
        simp only [Bool.not_true, Bool.false_eq_true, if_false, hnumber, and_self, if_true]
        rw [outcome_bind]
        cases outcome fs (load c (dir.join ⟨name⟩) (.numbered ⟨category, n⟩) category (some n)) with
        | error failure => rfl
        | ok found => cases found <;> rfl
    · have htest : (!selection.includes n || known (.numbered ⟨category, n⟩) ||
          Sorted.contains (.numbered ⟨category, n⟩) modules) = true := by
        by_contra hne
        simp only [Bool.not_eq_true, Bool.or_eq_false_iff, Bool.not_eq_false'] at hne
        exact hopen ⟨⟨rfl, hne.1.1, hne.1.2⟩, hne.2⟩
      rw [htest, if_pos rfl, if_neg hopen]
      rfl

/-- An entry has nothing to say of ids with other numbers. -/
theorem moduleAt_of_ne {name : String} (h : moduleNumber? c.extension name ≠ some id.number) :
    moduleAt c fs dir id name = .ok none := if_neg fun h' => h h'.1

theorem askedAt_eq_none {name : String}
    (h : AsksFor known category selection id → moduleAt c fs dir id name = .ok none) :
    askedAt c fs known dir category selection name id = .ok none := by
  rw [askedAt]
  by_cases hasked : AsksFor known category selection id
  · rw [if_pos hasked, h hasked]
  · rw [if_neg hasked]

/-- An entry is taken in under the id that has its number, or there is nothing at this entry for any id
that is not there. -/
theorem addEntry_cases {name : String}
    (h : outcome fs (addEntry c known dir category selection modules name) = .ok modules') :
    (modules' = modules ∧ ∀ id, Sorted.contains (.numbered id) modules = false →
        askedAt c fs known dir category selection name id = .ok none) ∨
      ∃ id m, Sorted.contains (.numbered id) modules = false ∧ AsksFor known category selection id ∧
        moduleAt c fs dir id name = .ok (some m) ∧ modules' = Sorted.insert (.numbered id) m modules ∧
        ∀ id', id' ≠ id → askedAt c fs known dir category selection name id' = .ok none := by
  rw [outcome_addEntry] at h
  cases hnumber : moduleNumber? c.extension name with
  | none =>
    rw [hnumber] at h
    refine .inl ⟨(Except.ok.inj h).symm, fun id _ => askedAt_eq_none fun _ => moduleAt_of_ne ?_⟩
    rw [hnumber]
    exact Option.some_ne_none _ ∘ Eq.symm
  | some n =>
    rw [hnumber] at h
    dsimp only at h
    have hother (id : ModuleId) (hne : id ≠ ⟨category, n⟩) :
        askedAt c fs known dir category selection name id = .ok none := by
      refine askedAt_eq_none fun hasked => moduleAt_of_ne fun heq => hne ?_
      rw [hnumber] at heq
      rw [hasked.1, Option.some.inj heq]
    by_cases hopen : AsksFor known category selection ⟨category, n⟩ ∧
        Sorted.contains (.numbered ⟨category, n⟩) modules = false
    · rw [if_pos hopen] at h
      cases hat : moduleAt c fs dir ⟨category, n⟩ name with
      | error failure =>
        rw [hat] at h
        cases h
      | ok found =>
        rw [hat] at h
        have hmodules' := (Except.ok.inj h).symm
        cases found with
        | none =>
          refine .inl ⟨hmodules', fun id _ => ?_⟩
          by_cases hid : id = ⟨category, n⟩
          · exact askedAt_eq_none fun _ => by rw [hid, hat]
          · exact hother id hid
        | some m => exact .inr ⟨⟨category, n⟩, m, hopen.2, hopen.1, hat, hmodules', hother⟩
    · rw [if_neg hopen] at h
      refine .inl ⟨(Except.ok.inj h).symm, fun id hid => ?_⟩
      by_cases hid' : id = ⟨category, n⟩
      · subst hid'
        exact if_neg fun hasked => hopen ⟨hasked, hid⟩
      · exact hother id hid'

theorem adds_addEntry {name : String}
    (h : outcome fs (addEntry c known dir category selection modules name) = .ok modules') :
    Adds (askedAt c fs known dir category selection name) modules modules' := by
  rcases addEntry_cases h with ⟨rfl, hnone⟩ | ⟨id, m, hnew, hasked, hat, rfl, hother⟩
  · refine ⟨fun id hid => ?_, fun _ _ => rfl⟩
    rw [hnone id hid, find?_eq_none hid]
  · constructor
    · intro id' hid'
      simp only [Sorted.find?_insert, ModuleKey.compare_numbered]
      by_cases heq : id' = id
      · subst heq
        rw [askedAt, if_pos hasked, if_pos rfl, hat]
      · rw [if_neg fun hkey => heq (ModuleKey.numbered.inj hkey), hother id' heq, find?_eq_none hid']
    · intro key hkey
      simp only [Sorted.find?_insert, ModuleKey.compare_numbered]
      rw [if_neg]
      rintro rfl
      rw [hkey id rfl] at hnew
      cases hnew

theorem exists_of_addEntry_error {name : String} {failure : Failure BundleFault}
    (h : outcome fs (addEntry c known dir category selection modules name) = .error failure) :
    ∃ id, Sorted.contains (.numbered id) modules = false ∧
      askedAt c fs known dir category selection name id = .error failure := by
  rw [outcome_addEntry] at h
  cases hnumber : moduleNumber? c.extension name with
  | none =>
    rw [hnumber] at h
    cases h
  | some n =>
    rw [hnumber] at h
    dsimp only at h
    by_cases hopen : AsksFor known category selection ⟨category, n⟩ ∧
        Sorted.contains (.numbered ⟨category, n⟩) modules = false
    · rw [if_pos hopen] at h
      refine ⟨⟨category, n⟩, hopen.2, ?_⟩
      rw [askedAt, if_pos hopen.1]
      cases hat : moduleAt c fs dir ⟨category, n⟩ name with
      | error failure' =>
        rw [hat] at h
        rw [Except.error.inj h]
      | ok found =>
        rw [hat] at h
        cases h
    · rw [if_neg hopen] at h
      cases h

/-- What is found first at some entries, of the ids that are asked for. -/
theorem firstOf_askedAt (names : List String) (id : ModuleId) :
    firstOf (askedAt c fs known dir category selection · id) names
      = if AsksFor known category selection id then moduleIn c fs dir id names else .ok none :=
  firstOf_ite_const (AsksFor known category selection id) (moduleAt c fs dir id) names

/-! ### The directories of categories -/

/-- The directory of a category and the entries that it has; there are none if it cannot be found. -/
def listing (c : Convention) (fs : FileSystem) (dir : Path) (category : String) :
    Except (Failure BundleFault) (Path × List String) :=
  match categoryDirectory? c dir category with
  | none => .ok (dir, [])
  | some dir =>
    if fs (.isDirectory dir) = true then
      match fs (.entries dir) with
      | .ok names => .ok (dir, names)
      | .error refusal => if refusal.isNotFound then .ok (dir, []) else .error (.error (.io dir refusal))
    else .ok (dir, [])

/-- What is found for an id in the directory of its category, for requests in a directory. -/
def moduleOf (c : Convention) (fs : FileSystem) (dir : Path) (id : ModuleId) :
    Except (Failure BundleFault) (Option ScriptModule) := do
  let (dir, names) ← listing c fs dir id.category
  moduleIn c fs dir id names

/-- What is found in the directories of categories for the ids that are asked for. -/
def askedOf (c : Convention) (fs : FileSystem) (known : ModuleKey → Bool) (dir : Path)
    (wanted : String × Selection) (id : ModuleId) :
    Except (Failure BundleFault) (Option ScriptModule) :=
  if AsksFor known (c.canonical wanted.1) wanted.2 id then moduleOf c fs dir id else .ok none

/-- What is selected of a category is taken in entry by entry. -/
theorem outcome_addCategory (wanted : String × Selection) :
    outcome fs (addCategory c known dir modules wanted) = (do
      let (dir, names) ← listing c fs dir (c.canonical wanted.1)
      names.foldlM (fun modules name => outcome fs
        (addEntry c known dir (c.canonical wanted.1) wanted.2 modules name)) modules) := by
  unfold addCategory listing
  dsimp only
  cases categoryDirectory? c dir (c.canonical wanted.1) with
  | none => rfl
  | some dir =>
    dsimp only
    rw [outcome_bind, outcome_ask]
    change outcome fs (if (!fs (.isDirectory dir)) = true then _ else _) = _
    cases fs (.isDirectory dir) with
    | false => rfl
    | true =>
      simp only [Bool.not_true, Bool.false_eq_true, if_false, if_true]
      rw [outcome_bind, outcome_ask]
      change outcome fs (found? dir (fs (.entries dir)) >>= _) = _
      rw [outcome_bind]
      cases fs (.entries dir) with
      | ok names => exact outcome_foldlM fs _ names modules
      | error refusal =>
        unfold found?
        dsimp only
        cases refusal.isNotFound <;> rfl

/-- Where the directory of a category can be listed, what is found there is found at its entries. -/
theorem askedOf_of_listing {wanted : String × Selection} {names : List String}
    {categoryDir : Path} (h : listing c fs dir (c.canonical wanted.1) = .ok (categoryDir, names))
    (id : ModuleId) :
    askedOf c fs known dir wanted id
      = firstOf (askedAt c fs known categoryDir (c.canonical wanted.1) wanted.2 · id) names := by
  rw [firstOf_askedAt, askedOf]
  by_cases hasked : AsksFor known (c.canonical wanted.1) wanted.2 id
  · rw [if_pos hasked, if_pos hasked, moduleOf, ← hasked.1, h]
    rfl
  · rw [if_neg hasked, if_neg hasked]

theorem adds_addCategory {wanted : String × Selection}
    (h : outcome fs (addCategory c known dir modules wanted) = .ok modules') :
    Adds (askedOf c fs known dir wanted) modules modules' := by
  rw [outcome_addCategory, bind_eq_ok_iff] at h
  obtain ⟨⟨categoryDir, names⟩, hlisting, h⟩ := h
  have hadds := adds_foldlM (askedAt c fs known categoryDir (c.canonical wanted.1) wanted.2)
    (fun _ _ _ => adds_addEntry) h
  rwa [funext (askedOf_of_listing hlisting)]

/-- If an id is asked for, then a failure is the failure to find some id. -/
theorem exists_of_addCategory_error {wanted : String × Selection}
    (hasked : AsksFor known (c.canonical wanted.1) wanted.2 id) {failure : Failure BundleFault}
    (h : outcome fs (addCategory c known dir modules wanted) = .error failure) :
    ∃ id, askedOf c fs known dir wanted id = .error failure := by
  rw [outcome_addCategory, bind_eq_error_iff] at h
  rcases h with hlisting | ⟨⟨categoryDir, names⟩, hlisting, h⟩
  · -- the directory cannot be listed, whichever id one looks for
    refine ⟨id, ?_⟩
    rw [askedOf, if_pos hasked, moduleOf, ← hasked.1, hlisting]
    rfl
  · obtain ⟨id', -, hid'⟩ := exists_of_foldlM_error
      (askedAt c fs known categoryDir (c.canonical wanted.1) wanted.2)
      (fun _ _ _ => adds_addEntry) (fun _ _ _ => exists_of_addEntry_error) h
    exact ⟨id', by rw [askedOf_of_listing hlisting, hid']⟩

/-- **A survey takes in for each id that is asked for and not known the module in the directory of its
category.** -/
theorem adds_modulesOf {name : Option String} {selections : List (String × Selection)}
    (h : outcome fs (modulesOf c known (.modules dir name selections)) = .ok modules) :
    Adds (fun id => if ∃ wanted ∈ selections, AsksFor known (c.canonical wanted.1) wanted.2 id then
      moduleOf c fs dir id else .ok none) [] modules := by
  rw [modulesOf, outcome_foldlM] at h
  have hadds := adds_foldlM (askedOf c fs known dir) (fun _ _ _ => adds_addCategory) h
  simpa only [askedOf, firstOf_ite] using hadds

end ScriptBundle.Survey
