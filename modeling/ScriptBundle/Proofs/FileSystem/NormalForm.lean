import Mathlib.Algebra.GroupWithZero.Nat
import ScriptBundle.Proofs.FileSystem.Directories

/-!
# Keys in normal form

A key is meant to be a path in normal form: segments with a slash between them, none of which is empty or
made of points alone.  Backslashes become slashes when the path has already been cut into names and the
steps upwards have been taken, so that the pieces of a name with backslashes are neither names nor steps of
their own.

## Main definitions

* `IsSegment`: a text that can stand between slashes in normal form.
* `IsNormal`: segments with a slash between them, possibly behind a slash.

## Main results

* `isNormal_key_iff`: **the key of a path is in normal form, is its own key and stands for the path in joined
  paths, just if no slash has come into its names.**
* `isNormal_key_key`: keys of keys are in normal form, whatever the path.
-/

namespace ScriptBundle

variable {cs : List Char} {ks : List (List Char)}

/-- The text can stand between slashes in normal form. -/
def IsSegment (cs : List Char) : Prop := '/' ∉ cs ∧ cs ≠ [] ∧ cs ≠ ['.'] ∧ cs ≠ ['.', '.']

instance (cs : List Char) : Decidable (IsSegment cs) := inferInstanceAs (Decidable (_ ∧ _))

/-- The text is made of segments with a slash between them, possibly behind a slash. -/
def IsNormal (key : String) : Prop :=
  ∃ start ks, (start = [] ∨ start = ['/']) ∧ key.toList = start ++ ['/'].intercalate ks ∧
    ∀ cs ∈ ks, IsSegment cs

/-- Segments with a slash between them hold a slash less than there are segments, apart from the slashes
that they hold themselves. -/
theorem count_intercalate (h : ks ≠ []) :
    (['/'].intercalate ks).count '/' + 1 = ks.length + (ks.map (List.count '/')).sum := by
  induction ks with
  | nil => exact absurd rfl h
  | cons k ks ih =>
    by_cases hks : ks = []
    · simp [hks, Nat.add_comm]
    · rw [List.intercalate_cons_of_ne_nil hks, List.append_assoc, List.count_append,
        List.singleton_append, List.count_cons_self, List.length_cons, List.map_cons, List.sum_cons]
      have := ih hks
      omega

theorem sum_count_eq_zero_iff : (ks.map (List.count '/')).sum = 0 ↔ ∀ cs ∈ ks, '/' ∉ cs := by
  rw [List.sum_eq_zero_iff_forall_eq_nat, List.forall_mem_map]
  exact forall₂_congr fun cs _ => List.count_eq_zero

namespace Path

variable {p q : Path}

theorem key_congr (hstart : p.isAbsolute = q.isAbsolute) (hnames : p.keyNames = q.keyNames) :
    p.key = q.key := by
  rw [← String.toList_inj, toList_key, toList_key, keyStart, keyStart, hstart, hnames]

/-! ### Names without slashes -/

/-- A name into which no slash has come is a segment. -/
theorem isSegment_of_mem_keyNames (h : cs ∈ p.keyNames) (hslash : '/' ∉ cs) : IsSegment cs := by
  obtain ⟨name, hname, rfl⟩ := exists_of_mem_keyNames h
  have hback : '\\' ∉ name.toList := fun hmem => hslash (List.mem_map.2 ⟨'\\', hmem, rfl⟩)
  obtain ⟨part, -, hidle, hup, rfl⟩ := exists_part_of_name_mem hname
  rw [keyName_eq hback, String.toList_ofList] at hslash ⊢
  refine ⟨hslash, ?_, ?_, hup⟩
  · rintro rfl
    cases hidle
  · rintro rfl
    cases hidle

/-- Along segments without backslashes a key takes them as its names. -/
theorem foldl_keyStep_counted (h : ∀ k ∈ ks, IsSegment k ∧ '\\' ∉ k) (names : List (List Char)) :
    (counted ks).foldl keyStep names = ks.reverse ++ names := by
  induction ks generalizing names with
  | nil => rfl
  | cons k ks ih =>
    obtain ⟨⟨⟨-, hne, hdot, hup⟩, hback⟩, hks⟩ := List.forall_mem_cons.1 h
    have hidle : isIdle k = false := by simp [isIdle, hne, hdot]
    have hstep : keyStep names (partComponent k) = k :: names := by
      rw [partComponent, if_neg hup, keyStep, keyName_eq (by rwa [String.toList_ofList]),
        String.toList_ofList]
    rw [← List.singleton_append, counted_append, counted_of_not_isIdle hidle, List.singleton_append,
      List.foldl_cons, hstep, ih hks]
    simp

theorem isAbsolute_key (h : ∀ cs ∈ p.keyNames, '/' ∉ cs) :
    (Path.mk p.key).isAbsolute = p.isAbsolute := by
  have hhead := (tidy_intercalate fun k (hk : k ∈ p.keyNames) => ⟨ne_nil_of_mem_keyNames hk, h k hk⟩).2
  show (p.key.toList.head? == some '/') = p.isAbsolute
  rw [toList_key, keyStart]
  cases p.isAbsolute
  · simpa using hhead
  · rfl

/-- If no slash has come into the names of a key, then it is the key of a path with these names. -/
theorem keyNames_key (h : ∀ cs ∈ p.keyNames, '/' ∉ cs) : (Path.mk p.key).keyNames = p.keyNames := by
  have hinner : inner p.key.toList = counted p.keyNames := by
    rw [toList_key, keyStart]
    split_ifs
    · rw [List.singleton_append, inner_slash, inner_intercalate h]
    · rw [List.nil_append, inner_intercalate h]
  have hnames : ∀ k ∈ p.keyNames, IsSegment k ∧ '\\' ∉ k := by
    intro k hk
    obtain ⟨name, -, rfl⟩ := exists_of_mem_keyNames hk
    exact ⟨isSegment_of_mem_keyNames hk (h _ hk), backslash_not_mem_keyName name⟩
  rw [keyNames_eq, hinner, foldl_keyStep_counted hnames, List.append_nil, List.reverse_reverse]

/-- A path may be replaced by its key in front of others, if no slash has come into its names. -/
theorem key_join_key (h : ∀ cs ∈ p.keyNames, '/' ∉ cs) (hq : q.isAbsolute = false) :
    ((Path.mk p.key).join q).key = (p.join q).key := by
  apply key_congr
  · rw [isAbsolute_join _ hq, isAbsolute_join _ hq, isAbsolute_key h]
  · rw [keyNames_join_eq _ hq, keyNames_join_eq _ hq, keyNames_key h]

theorem isNormal_key (h : ∀ cs ∈ p.keyNames, '/' ∉ cs) : IsNormal p.key := by
  refine ⟨p.keyStart, p.keyNames, ?_, toList_key p, fun cs hcs => isSegment_of_mem_keyNames hcs (h cs hcs)⟩
  unfold keyStart
  split_ifs
  · exact .inr rfl
  · exact .inl rfl

/-! ### Steps upwards -/

/-- So many steps upwards. -/
def stepsUp (n : ℕ) : Path := ⟨String.ofList (['/'].intercalate (List.replicate n ['.', '.']))⟩

theorem inner_stepsUp (n : ℕ) : inner (stepsUp n).text.toList = List.replicate n .up := by
  have hparts : ∀ k ∈ List.replicate n ['.', '.'], '/' ∉ k := by
    intro k hk
    rw [List.eq_of_mem_replicate hk]
    decide
  rw [stepsUp, String.toList_ofList, inner_intercalate hparts]
  induction n with
  | zero => rfl
  | succ n ih =>
    rw [List.replicate_succ, ← List.singleton_append, counted_append, List.replicate_succ,
      ← List.singleton_append, ih fun k hk => hparts k (List.mem_cons_of_mem _ hk)]
    rfl

theorem isAbsolute_stepsUp (n : ℕ) : (stepsUp n).isAbsolute = false := by
  cases n with
  | zero => rfl
  | succ n =>
    rw [isAbsolute, stepsUp, String.toList_ofList, List.replicate_succ]
    by_cases hn : List.replicate n ['.', '.'] = []
    · rw [hn]
      rfl
    · rw [List.intercalate_cons_of_ne_nil hn]
      rfl

/-- Steps upwards take back the last names. -/
theorem keyNames_join_stepsUp (p : Path) (n : ℕ) :
    (p.join (stepsUp n)).keyNames = p.keyNames.take (p.keyNames.length - n) := by
  have hdrop (names : List (List Char)) : (List.replicate n .up).foldl keyStep names = names.drop n := by
    induction n generalizing names with
    | zero => rfl
    | succ n ih =>
      rw [List.replicate_succ, List.foldl_cons, ih, keyStep, List.drop_tail]
  rw [keyNames_join_eq _ (isAbsolute_stepsUp n), inner_stepsUp, hdrop, List.reverse_drop,
    List.reverse_reverse, List.length_reverse]

/-- No slash comes into the names of the key of a key. -/
theorem slash_not_mem_keyNames_key (p : Path) : ∀ cs ∈ (Path.mk p.key).keyNames, '/' ∉ cs :=
  fun _ => slash_not_mem_of_mem_keyNames (backslash_not_mem_key p)

/-- If nothing is left of a path after some steps upwards, and nothing of its key either, then the key has
no more names than these steps, and it starts as the path does. -/
theorem length_keyNames_key_le
    (h : (p.join (stepsUp p.keyNames.length)).key
      = ((Path.mk p.key).join (stepsUp p.keyNames.length)).key) :
    (Path.mk p.key).keyNames.length ≤ p.keyNames.length ∧ (Path.mk p.key).keyStart = p.keyStart := by
  have hleft := keyNames_join_stepsUp (Path.mk p.key) p.keyNames.length
  have hmem (k : List Char) (hk : k ∈ ((Path.mk p.key).join (stepsUp p.keyNames.length)).keyNames) :
      k ≠ [] ∧ '/' ∉ k :=
    ⟨ne_nil_of_mem_keyNames hk, slash_not_mem_keyNames_key p k (List.mem_of_mem_take (hleft ▸ hk))⟩
  have htext := congrArg String.toList h
  rw [toList_key, toList_key, keyStart_join _ (isAbsolute_stepsUp _), keyStart_join _ (isAbsolute_stepsUp _),
    keyNames_join_stepsUp p, Nat.sub_self, List.take_zero, List.intercalate_nil, List.append_nil] at htext
  -- what is left starts with a name, and the start of a path is a slash at most
  have hnil : ((Path.mk p.key).join (stepsUp p.keyNames.length)).keyNames = [] := by
    by_contra hne
    obtain ⟨c, cs, hcs⟩ := List.exists_cons_of_ne_nil (intercalate_keyNames_ne_nil hne)
    have hhead := (tidy_intercalate hmem).2
    rw [hcs] at htext hhead
    unfold keyStart at htext
    split_ifs at htext
    · cases (List.cons.inj htext).2
    · exact hhead (congrArg some (List.cons.inj htext).1.symm)
    · cases htext
    · cases htext
  rw [hnil, List.intercalate_nil, List.append_nil] at htext
  rw [hleft, List.take_eq_nil_iff] at hnil
  refine ⟨?_, htext.symm⟩
  rcases hnil with hzero | hnil
  · exact Nat.le_of_sub_eq_zero hzero
  · rw [hnil]
    exact Nat.zero_le _

/-- **The key of a path is in normal form, is its own key and stands for the path in front of others, just
if no slash has come into its names.** -/
theorem isNormal_key_iff (p : Path) :
    (IsNormal p.key ∧ (Path.mk p.key).key = p.key ∧
      ∀ q : Path, q.isAbsolute = false → (p.join q).key = ((Path.mk p.key).join q).key)
      ↔ ∀ cs ∈ p.keyNames, '/' ∉ cs := by
  constructor
  · rintro ⟨-, hself, hjoin⟩
    by_cases hnil : p.keyNames = []
    · simp [hnil]
    obtain ⟨hle, hstart⟩ := length_keyNames_key_le (hjoin _ (isAbsolute_stepsUp _))
    have hnames : ['/'].intercalate (Path.mk p.key).keyNames = ['/'].intercalate p.keyNames := by
      have htext := congrArg String.toList hself
      rw [toList_key, toList_key, hstart] at htext
      exact List.append_cancel_left htext
    have hnil' : (Path.mk p.key).keyNames ≠ [] := by
      intro hnil'
      rw [hnil'] at hnames
      exact intercalate_keyNames_ne_nil hnil hnames.symm
    -- both keys hold the same slashes, and those of the key of the key stand between its names
    have hcount := count_intercalate hnil
    have hcount' := count_intercalate hnil'
    rw [hnames, sum_count_eq_zero_iff.2 (slash_not_mem_keyNames_key p)] at hcount'
    rw [← sum_count_eq_zero_iff]
    omega
  · intro h
    exact ⟨isNormal_key h, key_congr (isAbsolute_key h) (keyNames_key h), fun q hq => (key_join_key h hq).symm⟩

/-- The names of a key come apart at its slashes, and a step upwards takes back less than a name. -/
theorem backslashPath_key_join :
    (Path.mk "/js\\lib").key = "/js/lib" ∧ (Path.mk "../c").isAbsolute = false ∧
      ((Path.mk "/js\\lib").join ⟨"../c"⟩).key = "/c" ∧ ((Path.mk "/js/lib").join ⟨"../c"⟩).key = "/js/c" ∧
      ¬ ∀ q : Path, q.isAbsolute = false → ((Path.mk "/js\\lib").join q).key
        = ((Path.mk (Path.mk "/js\\lib").key).join q).key := by
  refine ⟨by decide, by decide, by decide, by decide, fun h => ?_⟩
  exact absurd (h ⟨"../c"⟩ (by decide)) (by decide)

/-- The key of a key is in normal form and its own key. -/
theorem isNormal_key_key (p : Path) : IsNormal (Path.mk p.key).key ∧
    (Path.mk (Path.mk p.key).key).key = (Path.mk p.key).key := by
  have h := slash_not_mem_keyNames_key p
  exact ⟨isNormal_key h, key_congr (isAbsolute_key h) (keyNames_key h)⟩

end Path

end ScriptBundle
