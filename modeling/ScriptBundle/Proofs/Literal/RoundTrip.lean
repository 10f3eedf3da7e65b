import ScriptBundle.Literal.Grammar
import ScriptBundle.Proofs.Literal.Scalars
import ScriptBundle.Proofs.Sorted.Lookup
import ScriptBundle.Proofs.Text.Trivia

/-!
# Reading what has been written

A value that is written as JSON without blanks is read as itself.  Its text is cut into lexemes from the
front, and these are read as the value whatever follows them.  For arrays and objects both is put
together from the same for their parts.

## Main definitions

* `Value.Plain`: values of whole numbers and texts that are nested to a limited depth.
* `Lexeme.Cuts`: a text is cut into lexemes, and then it goes on.
* `Literal.Leaves`: what a reader has read, and the lexemes that it has left.
* `Literal.Writes`: a text is read as a value wherever a value may end.
* `Literal.ReadsParts`: what is between two marks is read part by part.

## Main results

* `ReadsParts.exists_cuts`: **parts with commas in between are read if each of them is.**
* `writes_compact`: the JSON form of a plain value is read as this value.
* `decode_compact`: **a plain value is decoded from its JSON form.**
-/

namespace ScriptBundle

/-- Values of null, truth values, whole numbers of 64 bits, texts, arrays and objects; arrays and objects
are nested at most `depth` deep. -/
inductive Value.Plain : (depth : Nat) → Value → Prop where
  | null {depth : Nat} : Plain depth .null
  | bool {depth : Nat} (b : Bool) : Plain depth (.bool b)
  | integer {depth : Nat} {i : Int} (h : -0x8000000000000000 ≤ i ∧ i ≤ 0xFFFFFFFFFFFFFFFF) :
    Plain depth (.number (.integer i))
  | text {depth : Nat} (s : String) : Plain depth (.text s)
  | array {depth : Nat} {items : List Value} (h : ∀ v ∈ items, Plain depth v) :
    Plain (depth + 1) (.array items)
  | object {depth : Nat} {members : List (String × Value)} (hkeys : Sorted.Ascending members)
    (h : ∀ m ∈ members, Plain depth m.2) : Plain (depth + 1) (.object members)

/-! ### Cutting a text into lexemes -/

namespace Lexeme

/-- A text is cut into some lexemes, and then it goes on. -/
def Cuts (cs : List Char) (ls : List Lexeme) (rest : List Char) : Prop :=
  all cs = (ls ++ (all rest).1, (all rest).2)

variable {cs mid rest : List Char} {l : Lexeme} {ls ls' : List Lexeme} {t : Token}

theorem all_of_next? (h : next? cs = .ok (some l)) : all cs = (l :: (all l.stop).1, (all l.stop).2) := by
  rw [all]
  split
  · next h' => cases h.symm.trans h'
  · next h' => cases h.symm.trans h'
  · next l' h' =>
    obtain rfl := Option.some.inj (Except.ok.inj (h.symm.trans h'))
    rfl

theorem all_of_error {s : Stop} (h : next? cs = .error s) : all cs = ([], some s) := by
  rw [all]
  split
  · next h' => cases h.symm.trans h'; rfl
  · next h' => cases h.symm.trans h'
  · next h' => cases h.symm.trans h'

theorem all_of_none (h : next? cs = .ok none) : all cs = ([], none) := by
  rw [all]
  split
  · next h' => cases h.symm.trans h'
  · rfl
  · next h' => cases h.symm.trans h'

theorem all_nil : all [] = ([], none) := by
  have htrivia : Text.afterTrivia [] = [] := by rw [Text.afterTrivia.eq_def]
  refine all_of_none ?_
  unfold next?
  rw [htrivia]

theorem Cuts.append (h : Cuts cs ls mid) (h' : Cuts mid ls' rest) : Cuts cs (ls ++ ls') rest := by
  rw [Cuts, h, h', List.append_assoc]

theorem afterTrivia_eq_self {c : Char} (hblank : Text.isBlank c = false) (hslash : c ≠ '/') :
    Text.afterTrivia (c :: cs) = c :: cs :=
  Text.afterTrivia_cons hblank fun hc => absurd hc hslash

/-- A token is cut off where no blank and no comment starts. -/
theorem Cuts.of_scanToken {c : Char} (hblank : Text.isBlank c = false) (hslash : c ≠ '/')
    (h : scanToken (c :: cs) = .ok (t, rest)) : Cuts (c :: cs) [⟨t, c :: cs, rest⟩] rest := by
  have hnext : next? (c :: cs) = .ok (some ⟨t, c :: cs, rest⟩) := by
    rw [next?, afterTrivia_eq_self hblank hslash]
    dsimp only
    rw [h]
    rfl
  exact all_of_next? hnext

theorem Cuts.mark (m : Mark) (rest : List Char) :
    Cuts (m.char :: rest) [⟨.mark m, m.char :: rest, rest⟩] rest :=
  .of_scanToken (by cases m <;> rfl) (by cases m <;> decide) (scanToken_mark m rest)

theorem Cuts.json (cs rest : List Char) :
    Cuts (Text.json cs ++ rest) [⟨.text (String.ofList cs), Text.json cs ++ rest, rest⟩] rest :=
  .of_scanToken rfl (by decide) (scanToken_json cs rest)

end Lexeme

/-! ### Reading lexemes -/

namespace Literal

open Lexeme

section Readers

variable {ending : Stop} {room : Nat} {ls post rest : List Lexeme} {v : Value} {vs : List Value}
  {ms : List (String × Value)} {start stop : List Char}

/-- What a reader has read, and the lexemes that it has left. -/
def Leaves {α : Type} {bound : Nat} (read : Except Stop (Parsed α bound)) (result : α)
    (rest : List Lexeme) : Prop :=
  ∃ stop shorter, read = .ok ⟨result, stop, rest, shorter⟩

theorem items_close :
    Leaves (items ending (value ending room) (⟨.mark .closeBracket, start, stop⟩ :: rest)) [] rest := by
  rw [items]
  exact ⟨_, _, rfl⟩

/-- No value starts with a closing bracket. -/
theorem not_leaves_closeBracket :
    ¬ Leaves (value ending room (⟨.mark .closeBracket, start, stop⟩ :: ls)) v rest := by
  rintro ⟨_, _, h⟩
  cases room <;> cases h

theorem items_last (h : Leaves (value ending room ls) v (⟨.mark .closeBracket, start, stop⟩ :: rest)) :
    Leaves (items ending (value ending room) ls) [v] rest := by
  rw [items.eq_def]
  split
  · exact absurd h not_leaves_closeBracket
  · obtain ⟨_, _, h⟩ := h
    rw [h]
    exact ⟨_, _, rfl⟩

theorem items_comma (h : Leaves (value ending room ls) v (⟨.mark .comma, start, stop⟩ :: rest))
    (hrest : Leaves (items ending (value ending room) rest) vs post) :
    Leaves (items ending (value ending room) ls) (v :: vs) post := by
  rw [items.eq_def]
  split
  · exact absurd h not_leaves_closeBracket
  · obtain ⟨_, _, h⟩ := h
    obtain ⟨_, _, hrest⟩ := hrest
    rw [h]
    dsimp only
    rw [hrest]
    exact ⟨_, _, rfl⟩

theorem members_close :
    Leaves (members ending (value ending room) (⟨.mark .closeBrace, start, stop⟩ :: rest)) [] rest := by
  rw [members]
  exact ⟨_, _, rfl⟩

theorem members_last {key colon : Lexeme} {k : String} (hkey : keyText? key.token = some k)
    (hcolon : colon.token = .mark .colon)
    (h : Leaves (value ending room ls) v (⟨.mark .closeBrace, start, stop⟩ :: rest)) :
    Leaves (members ending (value ending room) (key :: colon :: ls)) [(k, v)] rest := by
  obtain ⟨_, _, h⟩ := h
  obtain ⟨token, _, _⟩ := key
  obtain ⟨_, _, _⟩ := colon
  obtain rfl : _ = Token.mark .colon := hcolon
  rw [members.eq_def]
  cases token with
  | mark m => cases hkey
  | _ =>
    cases hkey
    dsimp only [keyText?]
    rw [h]
    exact ⟨_, _, rfl⟩

theorem members_comma {key colon : Lexeme} {k : String} (hkey : keyText? key.token = some k)
    (hcolon : colon.token = .mark .colon)
    (h : Leaves (value ending room ls) v (⟨.mark .comma, start, stop⟩ :: rest))
    (hrest : Leaves (members ending (value ending room) rest) ms post) :
    Leaves (members ending (value ending room) (key :: colon :: ls)) ((k, v) :: ms) post := by
  obtain ⟨_, _, h⟩ := h
  obtain ⟨_, _, hrest⟩ := hrest
  obtain ⟨token, _, _⟩ := key
  obtain ⟨_, _, _⟩ := colon
  obtain rfl : _ = Token.mark .colon := hcolon
  rw [members.eq_def]
  cases token with
  | mark m => cases hkey
  | _ =>
    cases hkey
    dsimp only [keyText?]
    rw [h]
    dsimp only
    rw [hrest]
    exact ⟨_, _, rfl⟩

theorem value_array (h : Leaves (items ending (value ending room) ls) vs rest) :
    Leaves (value ending (room + 1) (⟨.mark .openBracket, start, stop⟩ :: ls)) (.array vs) rest := by
  obtain ⟨_, _, h⟩ := h
  rw [value, h]
  exact ⟨_, _, rfl⟩

theorem value_object (h : Leaves (members ending (value ending room) ls) ms rest) :
    Leaves (value ending (room + 1) (⟨.mark .openBrace, start, stop⟩ :: ls)) (objectOf ms) rest := by
  obtain ⟨_, _, h⟩ := h
  rw [value, h]
  exact ⟨_, _, rfl⟩

end Readers

/-! ### Texts that are read as values -/

variable {room : Nat} {v : Value} {vs : List Value} {ms : List (String × Value)} {cs : List Char}

/-- Some lexemes are read as a value, whatever follows them. -/
def ReadAs (room : Nat) (v : Value) (ls : List Lexeme) : Prop :=
  ∀ ending post, Leaves (value ending room (ls ++ post)) v post

/-- A text is read as a value wherever a value may end. -/
def Writes (room : Nat) (cs : List Char) (v : Value) : Prop :=
  ∀ rest, EndsToken rest → ∃ ls, Cuts (cs ++ rest) ls rest ∧ ReadAs room v ls

theorem endsToken_cons {c : Char} (h : c = ',' ∨ c = ']' ∨ c = '\x7d') (rest : List Char) :
    EndsToken (c :: rest) := by
  intro d hd
  rwa [← Option.some.inj hd]

/-- A single token that is a value. -/
theorem Writes.of_scanToken {c : Char} {t : Token} (hblank : Text.isBlank c = false) (hslash : c ≠ '/')
    (hscan : ∀ rest, EndsToken rest → scanToken (c :: cs ++ rest) = .ok (t, rest))
    (hread : ∀ ending start stop post,
      Leaves (value ending room (⟨t, start, stop⟩ :: post)) v post) : Writes room (c :: cs) v :=
  fun rest hrest => ⟨_, .of_scanToken hblank hslash (hscan rest hrest), fun _ _ => hread ..⟩

/-- A word is read as its keyword, or as a text. -/
theorem writes_word {c : Char} (hblank : Text.isBlank c = false) (hslash : c ≠ '/')
    (hstart : isWordStart c = true) (hcs : cs.all isWordRest = true) :
    Writes room (c :: cs) (wordValue (String.ofList (c :: cs))) := by
  have hrest : ∀ d ∈ cs, isWordRest d = true := List.all_eq_true.1 hcs
  refine .of_scanToken hblank hslash (fun rest hends => scanToken_word hstart hrest hends) ?_
  intro ending start stop post
  cases room <;> exact ⟨_, _, rfl⟩

theorem writes_text (s : String) : Writes room (Text.json s.toList) (.text s) := by
  refine .of_scanToken rfl (by decide) (fun rest _ => scanToken_json s.toList rest) ?_
  intro ending start stop post
  rw [String.ofList_toList]
  cases room <;> exact ⟨_, _, rfl⟩

/-- No number starts like a blank. -/
theorem isBlank_eq_false {c : Char} (h : isNumeralStart c = true) : Text.isBlank c = false := by
  have hbounds : '0'.val.toNat = 48 ∧ '9'.val.toNat = 57 := by decide
  simp only [isNumeralStart, Bool.or_eq_true, beq_iff_eq] at h
  rcases h with ((h | rfl) | rfl) | rfl
  · simp only [Char.isDigit, Bool.and_eq_true, decide_eq_true_eq, ge_iff_le, UInt32.le_iff_toNat_le] at h
    simp only [Text.isBlank, Bool.or_eq_false_iff, Bool.and_eq_false_iff, decide_eq_false_iff_not,
      beq_eq_false_iff_ne, Char.toNat]
    omega
  · rfl
  · rfl
  · rfl

theorem writes_integer {i : Int} (hi : -0x8000000000000000 ≤ i ∧ i ≤ 0xFFFFFFFFFFFFFFFF) :
    Writes room (Number.integer i).write (.number (.integer i)) := by
  obtain ⟨c, cs, htext, hc⟩ := exists_write_integer i
  have hscan (rest : List Char) (hrest : EndsToken rest) := scanToken_integer hi hrest
  rw [htext] at hscan ⊢
  refine .of_scanToken (isBlank_eq_false hc) (ne_of_test hc rfl) hscan ?_
  intro ending start stop post
  cases room <;> exact ⟨_, _, rfl⟩

/-! ### Arrays and objects -/

theorem commaSeparated_cons_cons (part part' : List Char) (parts : List (List Char)) :
    Value.commaSeparated (part :: part' :: parts) = part ++ ',' :: Value.commaSeparated (part' :: parts) := by
  simp [Value.commaSeparated]

theorem commaSeparated_singleton (part : List Char) : Value.commaSeparated [part] = part := by
  simp [Value.commaSeparated]

/-- What is between two marks is read part by part: `Part` says what a part is read from, and `Reads`
what a reader makes of all parts, the closing mark included. -/
structure ReadsParts {α : Type} (closing : Mark) (Part : α → List Lexeme → Prop)
    (Reads : List α → List Lexeme → List Lexeme → Prop) : Prop where
  close (start stop : List Char) (post : List Lexeme) :
    Reads [] (⟨.mark closing, start, stop⟩ :: post) post
  last {x : α} {ls : List Lexeme} (start stop : List Char) (post : List Lexeme) : Part x ls →
    Reads [x] (ls ++ ⟨.mark closing, start, stop⟩ :: post) post
  comma {x : α} {xs : List α} {ls rest post : List Lexeme} (start stop : List Char) : Part x ls →
    Reads xs rest post → Reads (x :: xs) (ls ++ ⟨.mark .comma, start, stop⟩ :: rest) post

/-- If every part is read where a value may end, then so are all of them with commas in between. -/
theorem ReadsParts.exists_cuts {α : Type} {closing : Mark} {Part : α → List Lexeme → Prop}
    {Reads : List α → List Lexeme → List Lexeme → Prop} (h : ReadsParts closing Part Reads)
    (hclosing : ∀ rest, EndsToken (closing.char :: rest)) {text : α → List Char} {xs : List α}
    (hparts : ∀ x ∈ xs, ∀ rest, EndsToken rest → ∃ ls, Cuts (text x ++ rest) ls rest ∧ Part x ls)
    (rest : List Char) :
    ∃ ls, Cuts (Value.commaSeparated (xs.map text) ++ closing.char :: rest) ls rest ∧
      ∀ post, Reads xs (ls ++ post) post := by
  induction xs with
  | nil => exact ⟨_, .mark closing rest, fun post => h.close _ _ post⟩
  | cons x xs ih =>
    -- the last part is followed by the closing mark, and every other one by a comma
    cases xs with
    | nil =>
      obtain ⟨ls, hcuts, hpart⟩ := hparts x List.mem_cons_self _ (hclosing rest)
      rw [List.map_singleton, commaSeparated_singleton]
      refine ⟨_, hcuts.append (.mark closing rest), fun post => ?_⟩
      rw [List.append_assoc]
      exact h.last _ _ post hpart
    | cons y ys =>
      obtain ⟨ls', hcuts', hreads⟩ := ih fun z hz => hparts z (List.mem_cons_of_mem _ hz)
      obtain ⟨ls, hcuts, hpart⟩ := hparts x List.mem_cons_self _ (endsToken_cons (.inl rfl) _)
      rw [List.map_cons, List.map_cons, commaSeparated_cons_cons, List.append_assoc, List.cons_append]
      refine ⟨_, hcuts.append ((Cuts.mark .comma _).append hcuts'), fun post => ?_⟩
      rw [List.append_assoc, List.append_assoc]
      exact h.comma _ _ hpart (hreads post)

theorem readsParts_items (room : Nat) :
    ReadsParts .closeBracket (ReadAs room) fun vs ls post =>
      ∀ ending, Leaves (items ending (value ending room) ls) vs post where
  close _ _ _ _ := items_close
  last _ _ _ h ending := items_last (h ending _)
  comma _ _ h hrest ending := items_comma (h ending _) (hrest ending)

/-- A member is read from its key, a colon and its value. -/
def MemberReadAs (room : Nat) (m : String × Value) (ls : List Lexeme) : Prop :=
  ∃ key colon ls', ls = key :: colon :: ls' ∧ keyText? key.token = some m.1 ∧
    colon.token = .mark .colon ∧ ReadAs room m.2 ls'

theorem readsParts_members (room : Nat) :
    ReadsParts .closeBrace (MemberReadAs room) fun ms ls post =>
      ∀ ending, Leaves (members ending (value ending room) ls) ms post where
  close _ _ _ _ := members_close
  last _ _ _ h ending := by
    obtain ⟨_, _, _, rfl, hkey, hcolon, hread⟩ := h
    exact members_last hkey hcolon (hread ending _)
  comma _ _ h hrest ending := by
    obtain ⟨_, _, _, rfl, hkey, hcolon, hread⟩ := h
    exact members_comma hkey hcolon (hread ending _) (hrest ending)

/-- A member is written with its key and a colon in front. -/
theorem exists_member {m : String × Value} (h : Writes room m.2.compact m.2) {rest : List Char}
    (hrest : EndsToken rest) :
    ∃ ls, Cuts (Text.json m.1.toList ++ ':' :: m.2.compact ++ rest) ls rest ∧
      MemberReadAs room m ls := by
  obtain ⟨ls, hcuts, hread⟩ := h rest hrest
  have hkey := Cuts.json m.1.toList (':' :: (m.2.compact ++ rest))
  rw [String.ofList_toList] at hkey
  have hall := hkey.append ((Cuts.mark .colon _).append hcuts)
  rw [List.append_assoc]
  exact ⟨_, hall, _, _, ls, rfl, rfl, rfl, hread⟩

theorem writes_array (h : ∀ v ∈ vs, Writes room v.compact v) :
    Writes (room + 1) (Value.array vs).compact (.array vs) := by
  intro rest _
  obtain ⟨ls, hcuts, hread⟩ := (readsParts_items room).exists_cuts
    (endsToken_cons (.inr (.inl rfl))) h rest
  rw [Value.compact_array, List.cons_append, List.append_assoc]
  refine ⟨_, (Cuts.mark .openBracket _).append hcuts, fun ending post => ?_⟩
  exact value_array (hread post ending)

theorem writes_object (hkeys : Sorted.Ascending ms) (h : ∀ m ∈ ms, Writes room m.2.compact m.2) :
    Writes (room + 1) (Value.object ms).compact (.object ms) := by
  intro rest _
  obtain ⟨ls, hcuts, hread⟩ := (readsParts_members room).exists_cuts
    (endsToken_cons (.inr (.inr rfl))) (fun m hm rest hrest => exists_member (h m hm) hrest) rest
  rw [Value.compact_object, List.cons_append, List.append_assoc]
  refine ⟨_, (Cuts.mark .openBrace _).append hcuts, fun ending post => ?_⟩
  -- members are put in order as they are read, and they are in order already
  have hsorted : objectOf ms = .object ms := by
    rw [objectOf, Sorted.foldl_insert_of_ascending [] ms hkeys, List.nil_append]
  rw [← hsorted]
  exact value_object (hread post ending)

/-- The JSON form of a plain value is read as this value. -/
theorem writes_compact (h : v.Plain room) : Writes room v.compact v := by
  induction h with
  | null => exact writes_word rfl (by decide) rfl rfl
  | bool b =>
    cases b with
    | true => exact writes_word rfl (by decide) rfl rfl
    | false => exact writes_word rfl (by decide) rfl rfl
  | integer hi => exact writes_integer hi
  | text s => exact writes_text s
  | array _ ih => exact writes_array ih
  | object hkeys _ ih => exact writes_object hkeys ih

/-- **A plain value that is nested as deep as literals may be is decoded from its JSON form.** -/
theorem decode_compact (v : Value) (h : v.Plain maxDepth) :
    decode (String.ofList v.compact) = .ok v := by
  obtain ⟨ls, hcuts, hread⟩ := writes_compact h [] fun _ hc => nomatch hc
  rw [Cuts, all_nil, List.append_nil, List.append_nil] at hcuts
  have hvalue := hread (endingOf none) []
  rw [List.append_nil] at hvalue
  obtain ⟨stop, shorter, hvalue⟩ := hvalue
  have hfront : readFront v.compact = .ok ⟨v, stop, [], none⟩ := by
    rw [readFront, hcuts]
    dsimp only
    rw [hvalue]
    rfl
  rw [decode, String.toList_ofList, readAll, hfront]
  rfl

/-- A value whose parts look like something else, and the greatest and the least whole number. -/
def disguised : Value :=
  .object
    [("\x00\"", .text "undefined"),
     ("-1.5e3", .array [.number (.integer (-0x8000000000000000)), .number (.integer 0xFFFFFFFFFFFFFFFF)]),
     ("null", .text "\x1f\\/*\n'\x7f😀"),
     ("true", .bool false)]

/-- A value in some arrays, one inside the other. -/
def wrapped (v : Value) : Nat → Value
  | 0 => v
  | depth + 1 => .array [wrapped v depth]

theorem plain_wrapped (h : v.Plain room) (depth : Nat) : (wrapped v depth).Plain (room + depth) := by
  induction depth with
  | zero => exact h
  | succ depth ih =>
    refine .array fun item hitem => ?_
    rwa [List.mem_singleton.1 hitem]

theorem plain_disguised : disguised.Plain 2 := by
  refine .object (by unfold Sorted.Ascending; decide) fun m hm => ?_
  simp only [List.mem_cons, List.not_mem_nil, or_false] at hm
  rcases hm with rfl | rfl | rfl | rfl
  · exact .text _
  · refine .array fun item hitem => ?_
    simp only [List.mem_cons, List.not_mem_nil, or_false] at hitem
    rcases hitem with rfl | rfl
    · exact .integer (by decide)
    · exact .integer (by decide)
  · exact .text _
  · exact .bool _

theorem wrapped_disguised_decode :
    (wrapped disguised 62).Plain maxDepth ∧
      decode (String.ofList (wrapped disguised 62).compact) = .ok (wrapped disguised 62) := by
  have hplain : (wrapped disguised 62).Plain maxDepth := plain_wrapped plain_disguised 62
  exact ⟨hplain, decode_compact _ hplain⟩

end Literal

end ScriptBundle
