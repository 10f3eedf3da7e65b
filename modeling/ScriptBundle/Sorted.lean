/-!
# Lists of entries in key order

Small maps are kept as lists of entries in ascending key order, so that the order in which their
entries are visited is the order of the keys, and equal maps are equal lists.  Keys are compared
with `compare`; keys that compare as equal stand for the same entry.

## Main definitions

* `Sorted.find?`, `Sorted.contains`: look an entry up.
* `Sorted.insert`: put an entry in its place, instead of one with the same key.
* `Sorted.erase`: drop the entry of a key.
* `Sorted.distinct`: the keys of a list in order, each of them once.
* `Sorted.Ascending`: the keys stand in order, each of them once.

## Main results

* `mem_insert`: the entries behind an insertion, if the key is new.
* `ascending_insert`: an insertion keeps the order of the keys.
-/

namespace ScriptBundle.Sorted

variable {κ : Type u} {α : Type v} [Ord κ]

/-- The entry of a key. -/
def find? (key : κ) : List (κ × α) → Option α
  | [] => none
  | (k, a) :: rest => if (compare key k).isEq then some a else find? key rest

/-- There is an entry of that key. -/
def contains (key : κ) (entries : List (κ × α)) : Bool := (find? key entries).isSome

/-- Put an entry in its place.  An entry with the same key keeps its key and loses its value. -/
def insert (key : κ) (value : α) : List (κ × α) → List (κ × α)
  | [] => [(key, value)]
  | (k, a) :: rest =>
    match compare key k with
    | .lt => (key, value) :: (k, a) :: rest
    | .eq => (k, value) :: rest
    | .gt => (k, a) :: insert key value rest

/-- Drop the entry of a key. -/
def erase (key : κ) (entries : List (κ × α)) : List (κ × α) :=
  entries.filter fun e => !(compare key e.1).isEq

/-- The keys in order. -/
def keys (entries : List (κ × α)) : List κ := entries.map Prod.fst

/-- The values in key order. -/
def values (entries : List (κ × α)) : List α := entries.map Prod.snd

/-- The keys of a list in order, each of them once. -/
def distinct (ks : List κ) : List κ := keys (ks.foldl (fun entries k => insert k () entries) [])

@[simp] theorem find?_nil (key : κ) : find? key ([] : List (κ × α)) = none := rfl

@[simp] theorem insert_nil (key : κ) (value : α) :
    insert key value ([] : List (κ × α)) = [(key, value)] := rfl

theorem find?_insert_self [Std.ReflOrd κ] (key : κ) (value : α) (entries : List (κ × α)) :
    find? key (insert key value entries) = some value := by
  induction entries with
  | nil => simp [find?]
  | cons e rest ih =>
    unfold insert
    split <;> simp_all [find?]

/-! ### The order of the keys -/

/-- The keys stand in order, each of them once. -/
def Ascending (entries : List (κ × α)) : Prop :=
  entries.Pairwise fun a b => compare a.1 b.1 = .lt

/-- The entries behind an insertion, if no key compares as equal. -/
theorem mem_insert_of_compare_ne {key : κ} {value : α} {entries : List (κ × α)}
    (h : ∀ e ∈ entries, compare key e.1 ≠ .eq) (e : κ × α) :
    e ∈ insert key value entries ↔ e = (key, value) ∨ e ∈ entries := by
  induction entries with
  | nil => simp
  | cons first rest ih =>
    have hrest := ih fun e he => h e (List.mem_cons_of_mem _ he)
    unfold insert
    split
    · simp
    · next heq => exact absurd heq (h first List.mem_cons_self)
    · rw [List.mem_cons, List.mem_cons, hrest]
      exact or_left_comm

theorem mem_insert [Std.LawfulEqOrd κ] {key : κ} {value : α} {entries : List (κ × α)}
    (h : ∀ e ∈ entries, e.1 ≠ key) (e : κ × α) :
    e ∈ insert key value entries ↔ e = (key, value) ∨ e ∈ entries :=
  mem_insert_of_compare_ne (fun e he heq => h e he (Std.LawfulEqCmp.eq_of_compare heq).symm) e

/-- No new keys apart from the one that is put in. -/
theorem key_of_mem_insert {key : κ} {value : α} {entries : List (κ × α)} {e : κ × α}
    (h : e ∈ insert key value entries) : e.1 = key ∨ ∃ e' ∈ entries, e'.1 = e.1 := by
  induction entries with
  | nil =>
    rw [insert_nil, List.mem_singleton] at h
    exact .inl (by rw [h])
  | cons first rest ih =>
    unfold insert at h
    split at h
    · rcases List.mem_cons.1 h with rfl | h
      · exact .inl rfl
      · exact .inr ⟨e, h, rfl⟩
    · rcases List.mem_cons.1 h with rfl | h
      · exact .inr ⟨first, List.mem_cons_self, rfl⟩
      · exact .inr ⟨e, List.mem_cons_of_mem _ h, rfl⟩
    · rcases List.mem_cons.1 h with rfl | h
      · exact .inr ⟨first, List.mem_cons_self, rfl⟩
      · rcases ih h with h | ⟨e', he', h⟩
        · exact .inl h
        · exact .inr ⟨e', List.mem_cons_of_mem _ he', h⟩

theorem ascending_insert [Std.TransOrd κ] {key : κ} {value : α} {entries : List (κ × α)}
    (h : Ascending entries) : Ascending (insert key value entries) := by
  induction entries with
  | nil => simp [Ascending]
  | cons first rest ih =>
    obtain ⟨hfirst, hrest⟩ := List.pairwise_cons.1 h
    unfold insert
    split
    · next hlt =>
      refine List.pairwise_cons.2 ⟨fun e he => ?_, h⟩
      rcases List.mem_cons.1 he with rfl | he
      · exact hlt
      · exact Std.TransCmp.lt_trans hlt (hfirst e he)
    · exact List.pairwise_cons.2 ⟨hfirst, hrest⟩
    · next hgt =>
      refine List.pairwise_cons.2 ⟨fun e he => ?_, ih hrest⟩
      rcases key_of_mem_insert he with hk | ⟨e', he', hk⟩
      · rw [hk]
        exact Std.OrientedCmp.lt_of_gt hgt
      · rw [← hk]
        exact hfirst e' he'

end ScriptBundle.Sorted
