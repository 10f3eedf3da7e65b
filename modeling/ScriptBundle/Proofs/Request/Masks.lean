import Mathlib.Combinatorics.Colex
import ScriptBundle.Proofs.BitSet.Number
import ScriptBundle.Proofs.Path.Components
import ScriptBundle.Proofs.Text.Trimmed
import ScriptBundle.Request

/-!
# Requests for numbers

A request names the modules of a directory by a decimal number: its binary ones stand at the places of the
numbers that are wanted.  The directory, the name, the number and the extension of such a request are found
again in its text.

## Main definitions

* `Request.maskName`: the file name of a request for numbers.
* `Request.maskText`: the text of such a request in a directory.
* `Request.numeral`: the decimal number with given binary ones, and some zeros in front.

## Main results

* `Path.exists_parent_behind`: the directory is found again in the text.
* `ofFileName?_maskName`: the name and the number are found again in the file name.
* `exists_ofMask?_numeral`: the number selects the places of its binary ones.
* `parse_maskText`: **a request for numbers asks for these numbers, in the default category of its
  directory.**
-/

namespace ScriptBundle

/-! ### A file behind a directory -/

namespace Path

variable {p q : Path} {dir file : List Char}

/-- All components are names. -/
def IsNames (p : Path) : Prop := ∀ x ∈ p.components, ∃ name, x = .name name

theorem IsNames.lead_eq_nil (h : p.IsNames) : lead p.text.toList = [] := by
  rw [IsNames, components_eq] at h
  cases hlead : lead p.text.toList with
  | nil => rfl
  | cons x rest =>
    have hx : x ∈ lead p.text.toList := by simp [hlead]
    obtain ⟨name, rfl⟩ := h x (List.mem_append_left _ hx)
    exact absurd hx (name_not_mem_lead name _)

theorem IsNames.isAbsolute_eq_false (h : p.IsNames) : p.isAbsolute = false := by
  refine Path.isAbsolute_eq_false fun hroot => ?_
  obtain ⟨name, hname⟩ := h _ hroot
  cases hname

/-- Behind another path only the components of a path of names count, not its spelling. -/
theorem IsNames.components_join_eq (root : Path) (hp : p.IsNames) (hq : q.IsNames)
    (h : p.components = q.components) : (root.join p).components = (root.join q).components := by
  by_cases hroot : root.text = ""
  · rw [join_of_isEmpty hroot, join_of_isEmpty hroot, h]
  · have hinner : inner p.text.toList = inner q.text.toList := by
      rwa [components_eq, components_eq, hp.lead_eq_nil, hq.lead_eq_nil] at h
    rw [components_join hroot hp.isAbsolute_eq_false, components_join hroot hq.isAbsolute_eq_false, hinner]

theorem lead_of_notMem (hslash : '/' ∉ file) (hidle : isIdle file = false) : lead file = [] := by
  unfold lead
  split <;> simp_all [isIdle]

/-- The parts of a path that starts with its first part. -/
theorem leadAndParts_of_lead (h : lead p.text.toList = []) :
    p.leadAndParts = ([], p.text.toList.splitOn '/') := by
  rcases p.leadAndParts_cases with ⟨cs, htext, -⟩ | ⟨parts, hlead, -⟩ | ⟨-, hparts⟩
  · rw [htext] at h
    cases h
  · rw [hlead] at h
    cases h
  · exact hparts

section Behind

variable (hdir : (Path.mk (String.ofList dir)).IsNames) (hslash : '/' ∉ file) (hidle : isIdle file = false)

include hdir hslash

/-- Slashes at the start are dropped in front of the file name, if there is no directory. -/
theorem dropWhile_behind :
    (dir ++ '/' :: file).dropWhile (· == '/') = if dir = [] then file else dir ++ '/' :: file := by
  cases dir with
  | nil =>
    cases file with
    | nil => rfl
    | cons c file =>
      have hc : c ≠ '/' := fun hc => hslash (hc ▸ List.mem_cons_self)
      simp [hc]
  | cons c dir =>
    have hc : c ≠ '/' := by
      rintro rfl
      have hlead := hdir.lead_eq_nil
      rw [String.toList_ofList] at hlead
      cases hlead
    simp [hc]

include hidle

/-- The file is the last part of its path, and the path starts with its first part. -/
theorem leadAndParts_behind (hp : p.text.toList = (dir ++ '/' :: file).dropWhile (· == '/')) :
    p.leadAndParts = ([], (if dir = [] then [] else dir.splitOn '/') ++ [file]) := by
  have hlead : lead dir = [] := by
    have hlead := hdir.lead_eq_nil
    rwa [String.toList_ofList] at hlead
  rw [dropWhile_behind hdir hslash] at hp
  by_cases hnil : dir = []
  · rw [if_pos hnil] at hp ⊢
    rw [leadAndParts_of_lead (by rw [hp, lead_of_notMem hslash hidle]), hp, List.splitOn_eq_singleton hslash]
    rfl
  · rw [if_neg hnil] at hp ⊢
    rw [leadAndParts_of_lead (by rw [hp, lead_append hnil, hlead]), hp, List.splitOn_append_cons_self,
      List.splitOn_eq_singleton hslash]

theorem components_behind (hup : file ≠ ['.', '.'])
    (hp : p.text.toList = (dir ++ '/' :: file).dropWhile (· == '/')) :
    p.components = (Path.mk (String.ofList dir)).components ++ [.name (String.ofList file)] := by
  have hcomponents : p.components = leadComponents p.leadAndParts.1 ++ counted p.leadAndParts.2 := rfl
  have hdirectory : (Path.mk (String.ofList dir)).components = inner dir := by
    have hlead := hdir.lead_eq_nil
    rw [components_eq, hlead, String.toList_ofList, List.nil_append]
  rw [hcomponents, leadAndParts_behind hdir hslash hidle hp, hdirectory, counted_append,
    counted_of_not_isIdle hidle, partComponent, if_neg hup]
  by_cases hnil : dir = []
  · rw [if_pos hnil, hnil]
    rfl
  · rw [if_neg hnil]
    rfl

/-- **Above a file behind a directory is the directory.**  It is spelled alike if its parts all count. -/
theorem exists_parent_behind (hup : file ≠ ['.', '.'])
    (hp : p.text.toList = (dir ++ '/' :: file).dropWhile (· == '/')) :
    ∃ d, p.parent? = some d ∧ d.components = (Path.mk (String.ofList dir)).components ∧
      ((∀ part ∈ dir.splitOn '/', isIdle part = false) → d = ⟨String.ofList dir⟩) := by
  have hcomponents := components_behind hdir hslash hidle hup hp
  have hname : p.fileName? = some (String.ofList file) := by
    rw [fileName?_eq_some_iff, hcomponents, List.getLast?_concat]
  obtain ⟨d, hd, hdcomponents⟩ := exists_parent hname
  rw [hcomponents] at hdcomponents
  refine ⟨d, hd, (List.append_inj_left' hdcomponents rfl).symm, ?_⟩
  intro hparts
  -- an empty directory has an idle part
  have hne : dir ≠ [] := by
    rintro rfl
    cases hparts [] (by simp)
  have hbehind := leadAndParts_behind hdir hslash hidle hp
  have hlast : p.leadAndParts.2.reverse.dropWhile isIdle = file :: (dir.splitOn '/').reverse := by
    rw [hbehind, if_neg hne, List.reverse_append, List.reverse_singleton, List.singleton_append,
      List.dropWhile_cons_of_neg (by simp [hidle])]
  have hkept : (dir.splitOn '/').reverse.dropWhile isIdle = (dir.splitOn '/').reverse := by
    rw [List.dropWhile_eq_self_iff]
    intro hpos
    have hmem : (dir.splitOn '/').reverse[0] ∈ (dir.splitOn '/').reverse := List.getElem_mem hpos
    exact Bool.eq_false_iff.1 (hparts _ (List.mem_reverse.1 hmem))
  rw [parent?_eq hlast, Option.some_inj] at hd
  rw [← hd, hbehind, hkept, List.reverse_reverse, List.intercalate_splitOn, List.nil_append]

end Behind

end Path

namespace Request

variable {c : Convention} {name : Option String} {digits stem before rest cs : List Char} {s : Selection}

/-! ### The file name -/

/-- The file name of a request for numbers. -/
def maskName (c : Convention) (name : Option String) (digits : List Char) : List Char :=
  (name.elim [] fun n => n.toList ++ [':']) ++ digits ++ '.' :: c.extension.toList

theorem isSuffixOf?_append (as bs : List Char) : List.isSuffixOf? bs (as ++ bs) = some as := by
  have hprefix : ∀ cs ds : List Char, List.isPrefixOf? cs (cs ++ ds) = some ds := by
    intro cs ds
    induction cs with
    | nil => rw [List.nil_append, List.isPrefixOf?]
    | cons c cs ih => rw [List.cons_append, List.isPrefixOf?, if_pos (beq_self_eq_true c), ih]
  rw [List.isSuffixOf?, List.reverse_append, hprefix, Option.map_some, List.reverse_reverse]

theorem stem?_append (stem : List Char) : stem? c (stem ++ '.' :: c.extension.toList) = some stem := by
  rw [List.append_cons, stem?, isSuffixOf?_append, Option.bind_some, isSuffixOf?_append]

theorem cutLastColon_of_notMem (h : ':' ∉ cs) : cutLastColon cs = none := by
  rw [cutLastColon, Text.dropWhile_bne_eq_nil (by simpa using h)]

theorem cutLastColon_append (h : ':' ∉ rest) (before : List Char) :
    cutLastColon (before ++ ':' :: rest) = some (before, rest) := by
  have hrest : ':' ∉ rest.reverse := by simpa using h
  have hreverse : (before ++ ':' :: rest).reverse = rest.reverse ++ ':' :: before.reverse := by simp
  rw [cutLastColon, hreverse, Text.dropWhile_bne hrest, Text.takeWhile_bne hrest]
  simp

/-- The name and the number are found again in the file name. -/
theorem ofFileName?_maskName (hname : ∀ n ∈ name, n ≠ "" ∧ ':' ∉ n.toList) (hdigits : ':' ∉ digits)
    (hmask : Selection.ofMask? c digits = some s) :
    ofFileName? c (maskName c name digits) = some (name, s) := by
  cases name with
  | none =>
    have hcolon := cutLastColon_of_notMem hdigits
    simp [ofFileName?, maskName, stem?_append, hcolon, hmask]
  | some n =>
    obtain ⟨hne, hcolon⟩ := hname n rfl
    have hne : n.toList.isEmpty = false := by simpa using hne
    have hcolon : n.toList.contains ':' = false := by simpa using hcolon
    have hstem : stem? c (maskName c (some n) digits) = some (n.toList ++ ':' :: digits) := by
      simpa [maskName] using stem?_append (c := c) (n.toList ++ ':' :: digits)
    simp only [ofFileName?, hstem, Option.bind_eq_bind, Option.bind_some, cutLastColon_append hdigits, hne,
      hcolon, hmask, Bool.or_false, Bool.false_eq_true, if_false, Option.map_some, String.ofList_toList]

/-- A digit keeps the file name from being idle or a step upwards. -/
theorem maskName_spec (hdigits : digits ≠ []) (hcount : ∀ d ∈ digits, d.isDigit = true) :
    Path.isIdle (maskName c name digits) = false ∧ maskName c name digits ≠ ['.', '.'] := by
  obtain ⟨d, digits, rfl⟩ := List.exists_cons_of_ne_nil hdigits
  have hdigit : d.isDigit = true := hcount d List.mem_cons_self
  have hmem : d ∈ maskName c name (d :: digits) := by simp [maskName]
  have hpoint : d ≠ '.' := by
    rintro rfl
    cases hdigit
  constructor
  · unfold Path.isIdle
    rw [Bool.or_eq_false_iff, List.isEmpty_eq_false_iff, beq_eq_false_iff_ne]
    exact ⟨List.ne_nil_of_mem hmem, fun h => hpoint (by simpa [h] using hmem)⟩
  · intro h
    exact hpoint (by simpa [h] using hmem)

/-! ### The number -/

/-- The decimal number whose binary ones are at the places of some numbers, with some zeros in front. -/
def numeral (zeros : ℕ) (numbers : Finset ℕ) : List Char :=
  List.replicate zeros '0' ++ Nat.toDigits 10 (∑ i ∈ numbers, 2 ^ i)

variable {zeros : ℕ} {numbers : Finset ℕ}

theorem numeral_ne_nil : numeral zeros numbers ≠ [] := by
  simp [numeral, Nat.toDigits_ne_nil]

theorem isDigit_of_mem_numeral {d : Char} (h : d ∈ numeral zeros numbers) : d.isDigit = true := by
  rcases List.mem_append.1 h with h | h
  · rw [List.eq_of_mem_replicate h]
    rfl
  · exact Nat.isDigit_of_mem_toDigits (by omega) (by omega) h

theorem digitsValue_numeral : Numeral.digitsValue (numeral zeros numbers) = ∑ i ∈ numbers, 2 ^ i := by
  have hzeros : Nat.ofDigitChars 10 (List.replicate zeros '0') 0 = 0 := by
    induction zeros with
    | zero => rfl
    | succ zeros ih => exact ih
  rw [Numeral.digitsValue, numeral, Nat.ofDigitChars_append, hzeros]
  exact Nat.ofDigitChars_toDigits (by omega) (by omega)

/-- The places of the binary ones of a sum of different powers of two. -/
theorem testBit_sum_two_pow (numbers : Finset ℕ) (i : ℕ) :
    (∑ i ∈ numbers, 2 ^ i).testBit i = true ↔ i ∈ numbers := by
  rw [← Nat.mem_bitIndices, ← List.mem_toFinset, Finset.toFinset_bitIndices_sum_two_pow]

/-- The number selects the places of its binary ones. -/
theorem exists_ofMask?_numeral (hwildcard : c.wildcard = "" ∨ ∃ x ∈ c.wildcard.toList, x.isDigit = false) :
    ∃ set, Selection.ofMask? c (numeral zeros numbers) = some (.bits set) ∧
      ∀ n, (Selection.bits set).includes n = true ↔ n ∈ numbers := by
  have hdigits : ∀ d ∈ numeral zeros numbers, d.isDigit = true := fun d => isDigit_of_mem_numeral
  obtain ⟨set, hset⟩ : ∃ set, BitSet.ofDecimal? (numeral zeros numbers) = some set := by
    refine ⟨_, if_neg ?_⟩
    simpa [numeral_ne_nil] using hdigits
  have hother : numeral zeros numbers ≠ c.wildcard.toList := by
    intro h
    rcases hwildcard with hempty | ⟨x, hx, hxdigit⟩
    · rw [hempty] at h
      exact numeral_ne_nil h
    · rw [hdigits x (h ▸ hx)] at hxdigit
      cases hxdigit
  refine ⟨set, ?_, fun n => ?_⟩
  · rw [Selection.ofMask?, if_neg hother, hset]
    rfl
  · have hnumber := (BitSet.ofDecimal?_eq_some_iff.1 hset).2.2
    rw [Selection.includes, ← BitSet.testBit_toNat, hnumber, digitsValue_numeral, testBit_sum_two_pow]

/-! ### The request -/

/-- What a path stands for whose file name has a name and a selection. -/
theorem parse_of_ofFileName? {text : String} {p d : Path} {file : List Char} (root : Path)
    (hp : p = ⟨String.ofList (text.toList.dropWhile (· == '/'))⟩) (hup : .up ∉ p.components)
    (hlast : p.fileName? = some (String.ofList file)) (hfile : ofFileName? c file = some (name, s))
    (hd : p.parent? = some d) :
    parse root c text = .ok (.modules (root.join d) name [(c.defaultCategory, s)]) := by
  have hcontains : p.components.contains .up = false := by
    rwa [← Bool.not_eq_true, List.contains_iff_mem]
  unfold parse
  simp only [← hp, hcontains, hlast, String.toList_ofList, hfile, hd]
  rfl

/-- The text of a request for numbers in a directory. -/
def maskText (c : Convention) (dir : String) (name : Option String) (digits : List Char) : String :=
  String.ofList (dir.toList ++ '/' :: maskName c name digits)

/-- **A request for numbers asks for these numbers, in the default category of its directory and under its
name.**  The directory is spelled as in the request if each of its parts counts. -/
theorem parse_maskText (root : Path) (c : Convention) (dir : String) (name : Option String) (zeros : ℕ)
    (numbers : Finset ℕ) (hdir : (Path.mk dir).IsNames)
    (hname : ∀ n ∈ name, n ≠ "" ∧ ':' ∉ n.toList ∧ '/' ∉ n.toList)
    (hwildcard : c.wildcard = "" ∨ ∃ x ∈ c.wildcard.toList, x.isDigit = false)
    (hextension : '/' ∉ c.extension.toList) :
    ∃ d set, parse root c (maskText c dir name (numeral zeros numbers))
        = .ok (.modules d name [(c.defaultCategory, .bits set)]) ∧
      d.components = (root.join ⟨dir⟩).components ∧
      ((∀ part ∈ dir.toList.splitOn '/', Path.isIdle part = false) → d = root.join ⟨dir⟩) ∧
      ∀ n, (Selection.bits set).includes n = true ↔ n ∈ numbers := by
  obtain ⟨set, hmask, hset⟩ : ∃ set, Selection.ofMask? c (numeral zeros numbers) = some (.bits set) ∧
      ∀ n, (Selection.bits set).includes n = true ↔ n ∈ numbers := exists_ofMask?_numeral hwildcard
  have hdigits : ∀ d ∈ numeral zeros numbers, d.isDigit = true := fun d => isDigit_of_mem_numeral
  have hother (x : Char) (hx : x.isDigit = false) : x ∉ numeral zeros numbers := by
    intro hmem
    rw [hdigits x hmem] at hx
    cases hx
  have hfile : ofFileName? c (maskName c name (numeral zeros numbers)) = some (name, .bits set) :=
    ofFileName?_maskName (fun n hn => ⟨(hname n hn).1, (hname n hn).2.1⟩) (hother ':' rfl) hmask
  have hslash : '/' ∉ maskName c name (numeral zeros numbers) := by
    cases name with
    | none => simp [maskName, hother '/' rfl, hextension]
    | some n => simp [maskName, hother '/' rfl, hextension, (hname n rfl).2.2]
  obtain ⟨hidle, hup⟩ : Path.isIdle (maskName c name (numeral zeros numbers)) = false ∧
      maskName c name (numeral zeros numbers) ≠ ['.', '.'] := maskName_spec numeral_ne_nil hdigits
  -- the path is what is left of the text without slashes at its start
  obtain ⟨p, hp⟩ : ∃ p : Path, p = ⟨String.ofList
      ((maskText c dir name (numeral zeros numbers)).toList.dropWhile (· == '/'))⟩ := ⟨_, rfl⟩
  have htext : p.text.toList =
      (dir.toList ++ '/' :: maskName c name (numeral zeros numbers)).dropWhile (· == '/') := by
    rw [hp, String.toList_ofList, maskText, String.toList_ofList]
  have hdir' : (Path.mk (String.ofList dir.toList)).IsNames := by rwa [String.ofList_toList]
  have hcomponents := Path.components_behind hdir' hslash hidle hup htext
  obtain ⟨d, hd, hsame, hspelled⟩ := Path.exists_parent_behind hdir' hslash hidle hup htext
  rw [String.ofList_toList] at hcomponents hsame hspelled
  have hnotUp : .up ∉ p.components := by
    rw [hcomponents, List.mem_append]
    rintro (hmem | hmem)
    · obtain ⟨n, hn⟩ := hdir _ hmem
      cases hn
    · cases List.mem_singleton.1 hmem
  have hlast : p.fileName? = some (String.ofList (maskName c name (numeral zeros numbers))) := by
    rw [Path.fileName?_eq_some_iff, hcomponents, List.getLast?_concat]
  have hd' : d.IsNames := by
    rw [Path.IsNames, hsame]
    exact hdir
  refine ⟨root.join d, set, parse_of_ofFileName? root hp hnotUp hlast hfile hd,
    hd'.components_join_eq root hdir hsame, fun hparts => by rw [hspelled hparts], hset⟩

/-- The binary ones of `1180591620717411303429` are at `0`, `2` and `70`. -/
theorem parse_maskText_utils : maskText {} "utils" (some "u") (numeral 1 {0, 2, 70})
      = "utils/u:01180591620717411303429.js" ∧
    ∃ set, parse ⟨"/srv"⟩ {} (maskText {} "utils" (some "u") (numeral 1 {0, 2, 70}))
        = .ok (.modules ⟨"/srv/utils"⟩ (some "u") [(".", .bits set)]) ∧
      ∀ n, (Selection.bits set).includes n = true ↔ n ∈ ({0, 2, 70} : Finset ℕ) := by
  have hdir : (Path.mk "utils").IsNames := by
    have hcomponents : (Path.mk "utils").components = [.name "utils"] := by decide +kernel
    intro x hx
    rw [hcomponents, List.mem_singleton] at hx
    exact ⟨"utils", hx⟩
  obtain ⟨d, set, hparse, -, hspelled, hset⟩ := parse_maskText ⟨"/srv"⟩ {} "utils" (some "u") 1 {0, 2, 70}
    hdir (by decide +kernel) (.inr ⟨'*', by decide +kernel, rfl⟩) (by decide +kernel)
  have hd : d = ⟨"/srv/utils"⟩ := (hspelled (by decide +kernel)).trans (by decide +kernel)
  exact ⟨by decide +kernel, set, hd ▸ hparse, hset⟩

end Request

end ScriptBundle
