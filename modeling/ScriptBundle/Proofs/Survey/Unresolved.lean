import ScriptBundle.Closure
import ScriptBundle.Proofs.Module.KeyOrder
import ScriptBundle.Proofs.Sorted.Lookup

/-!
# What is noted of unresolved ids

The note about an id says whether some module declares it by a mandatory kind, and lists the modules
that declare it.  It is written declaration by declaration, survey by survey, and at the end it holds all
of them.  Modules are compared by their keys, so that no two of those that declare the id may compare as
equal.

## Main definitions

* `DeclaredBy`: a module among some declares an id by a kind.
* `Survey.Noted`: what is noted of an id holds the given declarations.

## Main results

* `noted_add`, `noted_merge`: what one more declaration, and another note, add.
* `noted_unresolvedOf`: **what a survey notes of an id that is not there holds all declarations of its
  modules.**
-/

namespace ScriptBundle

/-- The module with a key, one of those given, declares an id by a kind. -/
def DeclaredBy (modules : ModuleMap) (id : ModuleId) (key : ModuleKey) (kind : DependencyKind) :
    Prop := ∃ m, (key, m) ∈ modules ∧ (kind, id) ∈ m.declared

namespace Survey

variable {declares declares' : ModuleKey → DependencyKind → Prop} {known keys : List ModuleKey}
  {key referrer : ModuleKey} {kind : DependencyKind} {id : ModuleId}

/-! ### Lists of keys -/

/-- Put a key behind others, unless one of them compares as equal. -/
def addKey (known : List ModuleKey) (key : ModuleKey) : List ModuleKey :=
  if known.any fun k => (compare key k).isEq then known else known ++ [key]

/-- Keys that compare as equal are equal, for a key and those of a list. -/
def Apart (key : ModuleKey) (known : List ModuleKey) : Prop := ∀ k ∈ known, compare key k = .eq → key = k

theorem addKey_eq (h : Apart key known) :
    addKey known key = if key ∈ known then known else known ++ [key] := by
  have hany : (known.any fun k => (compare key k).isEq) = true ↔ key ∈ known := by
    rw [List.any_eq_true]
    constructor
    · rintro ⟨k, hk, hcompare⟩
      rwa [h k hk (Ordering.isEq_iff_eq_eq.1 hcompare)]
    · exact fun hmem => ⟨key, hmem, Ordering.isEq_iff_eq_eq.2 Std.ReflCmp.compare_self⟩
  rw [addKey]
  by_cases hmem : key ∈ known
  · rw [if_pos hmem, if_pos (hany.2 hmem)]
  · rw [if_neg hmem, if_neg (hmem ∘ hany.1)]

theorem mem_addKey (h : Apart key known) {k : ModuleKey} :
    k ∈ addKey known key ↔ k ∈ known ∨ k = key := by
  rw [addKey_eq h]
  by_cases hmem : key ∈ known
  · rw [if_pos hmem]
    refine ⟨.inl, ?_⟩
    rintro (hk | rfl)
    · exact hk
    · exact hmem
  · rw [if_neg hmem, List.mem_append, List.mem_singleton]

theorem nodup_addKey (h : Apart key known) (hnodup : known.Nodup) : (addKey known key).Nodup := by
  rw [addKey_eq h]
  by_cases hmem : key ∈ known
  · rwa [if_pos hmem]
  · rw [if_neg hmem]
    refine List.nodup_append.2 ⟨hnodup, List.pairwise_singleton _ _, ?_⟩
    intro k hk k' hk' heq
    rw [List.mem_singleton.1 hk'] at heq
    exact hmem (heq ▸ hk)

/-- Keys are put behind others one by one. -/
theorem foldl_addKey (hknown : known.Nodup) (h : ∀ key ∈ keys, Apart key (known ++ keys)) :
    (keys.foldl addKey known).Nodup ∧ ∀ k, k ∈ keys.foldl addKey known ↔ k ∈ known ∨ k ∈ keys := by
  induction keys generalizing known with
  | nil => simp [hknown]
  | cons key keys ih =>
    have hkey : Apart key known := fun k hk => h key List.mem_cons_self k (List.mem_append_left _ hk)
    have hrest : ∀ key' ∈ keys, Apart key' (addKey known key ++ keys) := by
      intro key' hkey' k hk
      refine h key' (List.mem_cons_of_mem _ hkey') k ?_
      rw [List.mem_append, mem_addKey hkey] at hk
      rw [List.mem_append, List.mem_cons, ← or_assoc]
      exact hk
    obtain ⟨hnodup, hmem⟩ := ih (nodup_addKey hkey hknown) hrest
    refine ⟨hnodup, fun k => ?_⟩
    rw [List.foldl_cons, hmem, mem_addKey hkey, List.mem_cons, or_assoc]

/-! ### Notes -/

/-- What is noted of an id holds the given declarations; nothing is noted if there are none. -/
structure Noted (declares : ModuleKey → DependencyKind → Prop) (note : Option Unresolved) :
    Prop where
  isSome : note.isSome = true ↔ ∃ key kind, declares key kind
  mandatory : (note.getD {}).mandatory = true
    ↔ ∃ key kind, declares key kind ∧ kind.isMandatory = true
  nodup : (note.getD {}).referrers.Nodup
  referrers : ∀ key, key ∈ (note.getD {}).referrers ↔ ∃ kind, declares key kind

/-- Keys of modules that declare an id are equal if they compare as equal. -/
def KeysApart (declares : ModuleKey → DependencyKind → Prop) : Prop :=
  ∀ key kind key' kind', declares key kind → declares key' kind' → compare key key' = .eq → key = key'

theorem KeysApart.mono (h : KeysApart declares') (hsub : ∀ k d, declares k d → declares' k d) :
    KeysApart declares :=
  fun k d k' d' hd hd' => h k d k' d' (hsub k d hd) (hsub k' d' hd')

theorem noted_none : Noted (fun _ _ => False) none := by
  constructor
  · simp
  · simp
  · exact List.nodup_nil
  · simp

theorem Noted.not_declares (h : Noted declares none) : ¬ declares key kind :=
  fun hd => Bool.false_ne_true (h.isSome.2 ⟨key, kind, hd⟩)

/-- What one more declaration adds. -/
theorem noted_add {note : Option Unresolved} (h : Noted declares note)
    (hapart : KeysApart fun k d => declares k d ∨ (k = referrer ∧ d = kind)) :
    Noted (fun k d => declares k d ∨ (k = referrer ∧ d = kind))
      (some (Unresolved.add (note.getD {}) kind referrer)) := by
  have hreferrer : Apart referrer (note.getD {}).referrers := by
    intro k hk hcompare
    obtain ⟨d, hd⟩ := (h.referrers k).1 hk
    exact hapart referrer kind k d (.inr ⟨rfl, rfl⟩) (.inl hd) hcompare
  constructor
  · refine iff_of_true rfl ?_
    exact ⟨referrer, kind, .inr ⟨rfl, rfl⟩⟩
  · rw [Option.getD_some, Unresolved.add, Bool.or_eq_true, h.mandatory]
    constructor
    · rintro (⟨k, d, hd, hmandatory⟩ | hmandatory)
      · exact ⟨k, d, .inl hd, hmandatory⟩
      · exact ⟨referrer, kind, .inr ⟨rfl, rfl⟩, hmandatory⟩
    · rintro ⟨k, d, hd | ⟨-, rfl⟩, hmandatory⟩
      · exact .inl ⟨k, d, hd, hmandatory⟩
      · exact .inr hmandatory
  · exact nodup_addKey hreferrer h.nodup
  · intro key
    have hmem : key ∈ addKey (note.getD {}).referrers referrer
        ↔ key ∈ (note.getD {}).referrers ∨ key = referrer := mem_addKey hreferrer
    rw [h.referrers] at hmem
    refine hmem.trans ?_
    constructor
    · rintro (⟨d, hd⟩ | rfl)
      · exact ⟨d, .inl hd⟩
      · exact ⟨kind, .inr ⟨rfl, rfl⟩⟩
    · rintro ⟨d, hd | ⟨rfl, -⟩⟩
      · exact .inl ⟨d, hd⟩
      · exact .inr rfl

/-- What another note adds. -/
theorem noted_merge {u u' : Unresolved} (h : Noted declares (some u)) (h' : Noted declares' (some u'))
    (hapart : KeysApart fun k d => declares k d ∨ declares' k d) :
    Noted (fun k d => declares k d ∨ declares' k d) (some (u.merge u')) := by
  have hkeys : ∀ key ∈ u'.referrers, Apart key (u.referrers ++ u'.referrers) := by
    intro key hkey k hk hcompare
    obtain ⟨d, hd⟩ := (h'.referrers key).1 hkey
    rcases List.mem_append.1 hk with hk | hk
    · obtain ⟨d', hd'⟩ := (h.referrers k).1 hk
      exact hapart key d k d' (.inr hd) (.inl hd') hcompare
    · obtain ⟨d', hd'⟩ := (h'.referrers k).1 hk
      exact hapart key d k d' (.inr hd) (.inr hd') hcompare
  obtain ⟨hnodup, hmem⟩ := foldl_addKey h.nodup hkeys
  constructor
  · obtain ⟨k, d, hd⟩ := h.isSome.1 rfl
    exact iff_of_true rfl ⟨k, d, .inl hd⟩
  · have hmandatory : u.mandatory = true ↔ _ := h.mandatory
    have hmandatory' : u'.mandatory = true ↔ _ := h'.mandatory
    rw [Option.getD_some, Unresolved.merge, Bool.or_eq_true, hmandatory, hmandatory']
    simp only [or_and_right, exists_or]
  · exact hnodup
  · intro key
    have hreferrers' : key ∈ u'.referrers ↔ _ := h'.referrers key
    have hkey := hmem key
    rw [h.referrers, hreferrers', ← exists_or] at hkey
    exact hkey

/-! ### The declarations of modules -/

variable {present : ModuleKey → Bool} {unresolved : UnresolvedMap} {modules : ModuleMap}

theorem find?_addDeclaration (d : DependencyKind × ModuleId) :
    Sorted.find? id (addDeclaration present referrer unresolved d)
      = if d.2 = id ∧ present (.numbered id) = false then
        some (Unresolved.add ((Sorted.find? id unresolved).getD {}) d.1 referrer)
      else Sorted.find? id unresolved := by
  unfold addDeclaration
  dsimp only
  by_cases hid : d.2 = id
  · subst hid
    cases hpresent : present (.numbered d.2) with
    | true => simp
    | false => simp [Sorted.find?_insert_self]
  · have hcompare : compare id d.2 ≠ .eq := fun heq => hid (Std.LawfulEqCmp.eq_of_compare heq).symm
    rw [if_neg (hid ∘ And.left)]
    cases present (.numbered d.2) with
    | true => rfl
    | false => exact Sorted.find?_insert_of_ne hcompare

/-- Nothing is noted of an id that is present. -/
theorem find?_unresolvedOf_of_present (h : present (.numbered id) = true) :
    Sorted.find? id (unresolvedOf present modules) = none := by
  have hstep (us : UnresolvedMap) (hus : Sorted.find? id us = none) (referrer : ModuleKey)
      (d : DependencyKind × ModuleId) :
      Sorted.find? id (addDeclaration present referrer us d) = none := by
    rw [find?_addDeclaration, if_neg, hus]
    rintro ⟨-, hnew⟩
    rw [h] at hnew
    cases hnew
  have hnone : Sorted.find? id ([] : UnresolvedMap) = none := rfl
  rw [unresolvedOf]
  refine List.foldlRecOn (motive := (Sorted.find? id · = none)) modules _ hnone fun us hus e _ => ?_
  exact List.foldlRecOn (motive := (Sorted.find? id · = none)) e.2.declared _ hus
    fun us hus d _ => hstep us hus e.1 d

theorem ascending_addDeclaration (h : Sorted.Ascending unresolved) (d : DependencyKind × ModuleId) :
    Sorted.Ascending (addDeclaration present referrer unresolved d) := by
  rw [addDeclaration]
  cases present (.numbered d.2) with
  | true => exact h
  | false => exact Sorted.ascending_insert h

theorem ascending_unresolvedOf : Sorted.Ascending (unresolvedOf present modules) := by
  rw [unresolvedOf]
  refine List.foldlRecOn modules _ List.Pairwise.nil fun us hus e _ => ?_
  exact List.foldlRecOn e.2.declared _ hus fun us hus d _ => ascending_addDeclaration hus d

/-- What the declarations of one module add. -/
theorem noted_foldl_addDeclaration (hnew : present (.numbered id) = false)
    (declared : List (DependencyKind × ModuleId)) {declares : ModuleKey → DependencyKind → Prop}
    (h : Noted declares (Sorted.find? id unresolved))
    (hapart : KeysApart fun k d => declares k d ∨ (k = referrer ∧ (d, id) ∈ declared)) :
    Noted (fun k d => declares k d ∨ (k = referrer ∧ (d, id) ∈ declared))
      (Sorted.find? id (declared.foldl (addDeclaration present referrer) unresolved)) := by
  induction declared generalizing unresolved declares with
  | nil => simpa using h
  | cons d declared ih =>
    obtain ⟨kind, id'⟩ := d
    rw [List.foldl_cons]
    by_cases hid : id' = id
    · subst hid
      have heq : (fun k d => declares k d ∨ (k = referrer ∧ (d, id') ∈ (kind, id') :: declared))
          = fun k d => (declares k d ∨ (k = referrer ∧ d = kind)) ∨
            (k = referrer ∧ (d, id') ∈ declared) := by
        funext k d
        rw [List.mem_cons, Prod.mk.injEq, and_iff_left rfl, and_or_left, or_assoc]
      rw [heq] at hapart ⊢
      refine ih ?_ hapart
      rw [find?_addDeclaration, if_pos ⟨rfl, hnew⟩]
      exact noted_add h (hapart.mono fun _ _ hd => .inl hd)
    · -- a declaration of another id adds nothing to this note
      have heq : (fun k d => declares k d ∨ (k = referrer ∧ (d, id) ∈ (kind, id') :: declared))
          = fun k d => declares k d ∨ (k = referrer ∧ (d, id) ∈ declared) := by
        funext k d
        have hne : ¬ (d = kind ∧ id = id') := fun h => hid h.2.symm
        rw [List.mem_cons, Prod.mk.injEq, or_iff_right hne]
      rw [heq] at hapart ⊢
      refine ih ?_ hapart
      rwa [find?_addDeclaration, if_neg (hid ∘ And.left)]

/-- Keys of modules in order are equal if they compare as equal. -/
theorem keysApart_declaredBy (hmodules : Sorted.Ascending modules) (id : ModuleId) :
    KeysApart (DeclaredBy modules id) := by
  rintro key kind key' kind' ⟨m, hm, -⟩ ⟨m', hm', -⟩ hcompare
  exact (Prod.mk.inj (hmodules.eq_of_compare hm hm' hcompare)).1

theorem declaredBy_cons {e : ModuleKey × ScriptModule} :
    DeclaredBy (e :: modules) id key kind
      ↔ (key = e.1 ∧ (kind, id) ∈ e.2.declared) ∨ DeclaredBy modules id key kind := by
  constructor
  · rintro ⟨m, hm, hd⟩
    rcases List.mem_cons.1 hm with rfl | hm
    · exact .inl ⟨rfl, hd⟩
    · exact .inr ⟨m, hm, hd⟩
  · rintro (⟨rfl, hd⟩ | ⟨m, hm, hd⟩)
    · exact ⟨e.2, List.mem_cons_self, hd⟩
    · exact ⟨m, List.mem_cons_of_mem _ hm, hd⟩

/-- What the declarations of some modules add. -/
theorem noted_foldl_modules (hnew : present (.numbered id) = false)
    {declares : ModuleKey → DependencyKind → Prop}
    (h : Noted declares (Sorted.find? id unresolved))
    (hapart : KeysApart fun k d => declares k d ∨ DeclaredBy modules id k d) :
    Noted (fun k d => declares k d ∨ DeclaredBy modules id k d) (Sorted.find? id
      (modules.foldl (fun us m => m.2.declared.foldl (addDeclaration present m.1) us)
        unresolved)) := by
  induction modules generalizing unresolved declares with
  | nil => simpa [DeclaredBy] using h
  | cons e modules ih =>
    have heq : (fun k d => declares k d ∨ DeclaredBy (e :: modules) id k d) = fun k d =>
        (declares k d ∨ (k = e.1 ∧ (d, id) ∈ e.2.declared)) ∨ DeclaredBy modules id k d := by
      funext k d
      rw [declaredBy_cons, or_assoc]
    rw [heq] at hapart ⊢
    have hfirst := noted_foldl_addDeclaration hnew e.2.declared h
      (hapart.mono fun _ _ hd => .inl hd)
    exact ih hfirst hapart

/-- **What a survey notes of an id that is not there holds all declarations of its modules.** -/
theorem noted_unresolvedOf (hnew : present (.numbered id) = false)
    (hmodules : Sorted.Ascending modules) :
    Noted (DeclaredBy modules id) (Sorted.find? id (unresolvedOf present modules)) := by
  have hnone : Noted (fun _ _ => False) (Sorted.find? id ([] : UnresolvedMap)) := noted_none
  have heq : DeclaredBy modules id = fun key kind => False ∨ DeclaredBy modules id key kind := by
    funext key kind
    rw [false_or]
  have hapart := keysApart_declaredBy hmodules id
  rw [heq] at hapart ⊢
  exact noted_foldl_modules hnew hnone hapart

end Survey

end ScriptBundle
