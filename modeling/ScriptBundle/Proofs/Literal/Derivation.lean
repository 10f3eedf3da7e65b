import ScriptBundle.Proofs.Except
import ScriptBundle.Proofs.Literal.RoundTrip
import ScriptBundle.Proofs.Sorted.Collected

/-!
# The grammar of literals

    value  := object | array | text | number | word
    object := '{' [ member (',' member)* [','] ] '}'
    member := (text | word | number) ':' value
    array  := '[' [ value (',' value)* [','] ] ']'

The reader of literals is compared with this grammar.  What it reads can be derived, and from a
derivation it is known how the reader goes on, whatever lexemes follow.

## Main definitions

* `Separated`: parts with commas, also behind the last one.
* `Derives`: the values that the grammar gives to tokens, with a limited depth.
* `Consumed`: the lexemes that a reader has passed, and what they are read as.

## Main results

* `derives_of_value`: what the reader reads is derived from the lexemes that it has passed.
* `Derives.readAs`: what is derived from the tokens of some lexemes is read from these lexemes.
* `Derives.unique`: tokens have one value only.
* `decode_eq_ok_iff_derives`: **a text is decoded as a value iff it is cut into tokens up to its end
  and the value is derived from them.**
-/

namespace ScriptBundle.Literal

/-! ### The grammar -/

/-- Parts with a comma between any two of them.  A comma may stand behind the last one, but no part is
left out. -/
inductive Separated : List (List Token) → List Token → Prop where
  | none : Separated [] []
  | last (part : List Token) : Separated [part] part
  | comma (part : List Token) {parts : List (List Token)} {ts : List Token} (h : Separated parts ts) :
    Separated (part :: parts) (part ++ .mark .comma :: ts)

/-- A key is a quoted text, a word or a number. -/
inductive IsKey : Token → String → Prop where
  | text (s : String) : IsKey (.text s) s
  | word (w : String) : IsKey (.word w) w
  | number (n : Number) : IsKey (.number n) (String.ofList n.write)

/-- A member of an object: its key with the token that it is written as, and its value with the tokens
that it is written with. -/
structure Member where
  keyToken : Token
  key : String
  tokens : List Token
  value : Value

namespace Member

/-- The tokens of a member. -/
def spelling (m : Member) : List Token := m.keyToken :: .mark .colon :: m.tokens

/-- What a member says. -/
def entry (m : Member) : String × Value := (m.key, m.value)

end Member

/-- The values that are derived from tokens, with arrays and objects that are nested at most `depth`
deep.  Four words stand for other values than texts, and of members with one key the last one counts. -/
inductive Derives : (depth : Nat) → List Token → Value → Prop where
  | text {depth : Nat} (s : String) : Derives depth [.text s] (.text s)
  | number {depth : Nat} (n : Number) : Derives depth [.number n] (.number n)
  | isTrue {depth : Nat} : Derives depth [.word "true"] (.bool true)
  | isFalse {depth : Nat} : Derives depth [.word "false"] (.bool false)
  | null {depth : Nat} {w : String} (h : w = "null" ∨ w = "undefined") : Derives depth [.word w] .null
  | word {depth : Nat} {w : String} (h : w ∉ ["true", "false", "null", "undefined"]) :
    Derives depth [.word w] (.text w)
  | array {depth : Nat} {parts : List (List Token × Value)} {ts : List Token}
    (h : ∀ p ∈ parts, Derives depth p.1 p.2) (hts : Separated (parts.map Prod.fst) ts) :
    Derives (depth + 1) (.mark .openBracket :: (ts ++ [.mark .closeBracket]))
      (.array (parts.map Prod.snd))
  | object {depth : Nat} {ms : List Member} {ts : List Token} {entries : List (String × Value)}
    (hkeys : ∀ m ∈ ms, IsKey m.keyToken m.key) (h : ∀ m ∈ ms, Derives depth m.tokens m.value)
    (hts : Separated (ms.map Member.spelling) ts)
    (hentries : Sorted.Collects (ms.map Member.entry) entries) :
    Derives (depth + 1) (.mark .openBrace :: (ts ++ [.mark .closeBrace])) (.object entries)

theorem isKey_iff {t : Token} {k : String} : IsKey t k ↔ keyText? t = some k := by
  constructor
  · intro h
    cases h <;> rfl
  · intro h
    cases t with
    | mark m => cases h
    | text s => cases h; exact .text _
    | word w => cases h; exact .word _
    | number n => cases h; exact .number _

/-- An object is derived for the members that have been read. -/
theorem derives_objectOf {depth : Nat} {ms : List Member} {ts : List Token}
    (hkeys : ∀ m ∈ ms, IsKey m.keyToken m.key) (h : ∀ m ∈ ms, Derives depth m.tokens m.value)
    (hts : Separated (ms.map Member.spelling) ts) :
    Derives (depth + 1) (.mark .openBrace :: (ts ++ [.mark .closeBrace]))
      (objectOf (ms.map Member.entry)) :=
  .object hkeys h hts (Sorted.collects_foldl_insert _)

theorem objectOf_eq {ms entries : List (String × Value)} (h : Sorted.Collects ms entries) :
    objectOf ms = .object entries :=
  congrArg Value.object ((Sorted.collects_foldl_insert ms).unique h)

theorem derives_wordValue {depth : Nat} (w : String) : Derives depth [.word w] (wordValue w) := by
  unfold wordValue
  by_cases htrue : w = "true"
  · rw [if_pos htrue, htrue]
    exact .isTrue
  rw [if_neg htrue]
  by_cases hfalse : w = "false"
  · rw [if_pos hfalse, hfalse]
    exact .isFalse
  rw [if_neg hfalse]
  by_cases hnull : w = "null" ∨ w = "undefined"
  · rw [if_pos hnull]
    exact .null hnull
  · rw [if_neg hnull]
    rw [not_or] at hnull
    exact .word (by simp [htrue, hfalse, hnull])

/-! ### What is read can be derived -/

section Soundness

variable {α : Type} {ending : Stop} {ls : List Lexeme}

/-- A reader has come from the lexemes `ls` to `rest`.  The last one that it has passed ends at `stop`,
and the tokens of those that it has passed are read as `x`. -/
def Consumed (Read : List Token → α → Prop) (ls : List Lexeme) (x : α) (stop : List Char)
    (rest : List Lexeme) : Prop :=
  ∃ init last, ls = init ++ last :: rest ∧ last.stop = stop ∧
    Read ((init ++ [last]).map Lexeme.token) x

/-- Parts that stand with commas in front of a closing mark. -/
def Listed {β : Type} (closing : Mark) (Part : α → Prop) (spelling : α → List Token) (content : α → β)
    (ts : List Token) (xs : List β) : Prop :=
  ∃ (parts : List α) (inner : List Token), (∀ x ∈ parts, Part x) ∧
    Separated (parts.map spelling) inner ∧ ts = inner ++ [.mark closing] ∧ xs = parts.map content

section Listed

variable {β : Type} {closing : Mark} {Part : α → Prop} {spelling : α → List Token} {content : α → β}
  {x : α} {xs : List β} {mid rest : List Lexeme} {start stop stop' : List Char}

theorem consumed_close :
    Consumed (Listed closing Part spelling content) (⟨.mark closing, start, stop⟩ :: rest) [] stop rest :=
  ⟨[], _, rfl, rfl, [], [], by simp, .none, rfl, rfl⟩

/-- Behind a part stands the closing mark. -/
theorem consumed_last (before : List Lexeme) (start stop : List Char) (hx : Part x) (hbefore : before.map Lexeme.token = spelling x)
    (hls : ls = before ++ ⟨.mark closing, start, stop⟩ :: rest) :
    Consumed (Listed closing Part spelling content) ls [content x] stop rest := by
  subst hls
  refine ⟨before, _, rfl, rfl, [x], spelling x, ?_, .last _, ?_, rfl⟩
  · intro y hy
    rwa [List.mem_singleton.1 hy]
  · rw [List.map_append, hbefore]
    rfl

/-- Behind a part stands a comma. -/
theorem consumed_comma (before : List Lexeme) (start stop : List Char) (hx : Part x) (hbefore : before.map Lexeme.token = spelling x)
    (hls : ls = before ++ ⟨.mark .comma, start, stop⟩ :: mid)
    (h : Consumed (Listed closing Part spelling content) mid xs stop' rest) :
    Consumed (Listed closing Part spelling content) ls (content x :: xs) stop' rest := by
  subst hls
  obtain ⟨init, last, rfl, hstop, parts, inner, hparts, hinner, hts, rfl⟩ := h
  refine ⟨before ++ ⟨.mark .comma, start, stop⟩ :: init, last, ?_, hstop, x :: parts, _, ?_,
    .comma _ hinner, ?_, rfl⟩
  · rw [List.append_assoc, List.cons_append]
  · exact List.forall_mem_cons.2 ⟨hx, hparts⟩
  · rw [List.append_assoc, List.cons_append, List.map_append, hbefore, List.map_cons, hts,
      List.append_assoc, List.cons_append]

end Listed

/-- The tokens of an array behind its opening bracket. -/
abbrev ListsItems (depth : Nat) : List Token → List Value → Prop :=
  Listed .closeBracket (fun p : List Token × Value => Derives depth p.1 p.2) Prod.fst Prod.snd

/-- The tokens of an object behind its opening brace. -/
abbrev ListsMembers (depth : Nat) : List Token → List (String × Value) → Prop :=
  Listed .closeBrace (fun m => IsKey m.keyToken m.key ∧ Derives depth m.tokens m.value)
    Member.spelling Member.entry

variable {depth : Nat} {item : Reader Value}

/-- If items are derived as they are read, then so are all items of an array. -/
theorem listsItems_of_items
    (hitem : ∀ ls p, item ls = .ok p → Consumed (Derives depth) ls p.result p.stop p.rest) :
    ∀ p, items ending item ls = .ok p → Consumed (ListsItems depth) ls p.result p.stop p.rest := by
  fun_induction items ending item ls with
  | case1 start stop rest =>
    intro p h
    cases h
    exact consumed_close
  | case2 => intro p h; cases h
  | case3 ls _ v stop start stop' rest _ _ hv ih =>
    intro p h
    obtain ⟨q, hq, rfl⟩ := map_eq_ok_iff.1 h
    obtain ⟨init, last, hls, _, hderives⟩ := hitem _ _ hv
    refine consumed_comma (init ++ [last]) start stop' (x := (_, v)) hderives rfl ?_ (ih q hq)
    simpa using hls
  | case4 ls _ v stop start stop' rest _ _ hv =>
    intro p h
    cases h
    obtain ⟨init, last, hls, _, hderives⟩ := hitem _ _ hv
    refine consumed_last (init ++ [last]) start stop' (x := (_, v)) hderives rfl ?_
    simpa using hls
  | case5 => intro p h; cases h

/-- If values are derived as they are read, then so are all members of an object. -/
theorem listsMembers_of_members
    (hitem : ∀ ls p, item ls = .ok p → Consumed (Derives depth) ls p.result p.stop p.rest) :
    ∀ p, members ending item ls = .ok p → Consumed (ListsMembers depth) ls p.result p.stop p.rest := by
  fun_induction members ending item ls with
  | case1 => intro p h; cases h
  | case2 start stop rest =>
    intro p h
    cases h
    exact consumed_close
  | case3 => intro p h; cases h
  | case4 => intro p h; cases h
  | case5 key _ k hkey colonStart colonStop ls v _ start stop rest _ _ hv ih =>
    intro p h
    obtain ⟨q, hq, rfl⟩ := map_eq_ok_iff.1 h
    obtain ⟨init, last, hls, _, hderives⟩ := hitem _ _ hv
    refine consumed_comma (key :: ⟨.mark .colon, colonStart, colonStop⟩ :: (init ++ [last])) start stop
      (x := Member.mk key.token k _ v) ⟨isKey_iff.2 hkey, hderives⟩ rfl ?_ (ih q hq)
    simpa using hls
  | case6 key _ k hkey colonStart colonStop ls v _ start stop rest _ _ hv =>
    intro p h
    cases h
    obtain ⟨init, last, hls, _, hderives⟩ := hitem _ _ hv
    refine consumed_last (key :: ⟨.mark .colon, colonStart, colonStop⟩ :: (init ++ [last])) start stop
      (x := Member.mk key.token k _ v) ⟨isKey_iff.2 hkey, hderives⟩ rfl ?_
    simpa using hls
  | case7 => intro p h; cases h
  | case8 => intro p h; cases h

/-- **What the reader reads is derived from the lexemes that it has passed.** -/
theorem derives_of_value {room : Nat} :
    ∀ ls p, value ending room ls = .ok p → Consumed (Derives room) ls p.result p.stop p.rest := by
  -- the readers of the parts have less room
  induction room using Nat.strongRecOn with
  | ind room ih =>
    intro ls
    revert ih
    fun_induction value ending room ls with
    | case1 => intro _ p h; cases h
    | case2 => intro _ p h; cases h; exact ⟨[], _, rfl, rfl, .text _⟩
    | case3 => intro _ p h; cases h; exact ⟨[], _, rfl, rfl, .number _⟩
    | case4 => intro _ p h; cases h; exact ⟨[], _, rfl, rfl, derives_wordValue _⟩
    | case5 => intro _ p h; cases h
    | case6 => intro _ p h; cases h
    | case7 room start stop rest =>
      intro ih p h
      obtain ⟨q, hq, rfl⟩ := map_eq_ok_iff.1 h
      obtain ⟨init, last, hrest, hstop, parts, inner, hparts, hinner, hts, hms⟩ :=
        listsMembers_of_members (ih room room.lt_succ_self) q hq
      refine ⟨⟨.mark .openBrace, start, stop⟩ :: init, last, ?_, hstop, ?_⟩
      · exact congrArg _ hrest
      · show Derives (room + 1) (.mark .openBrace :: (init ++ [last]).map Lexeme.token) (objectOf q.result)
        rw [hts, hms]
        exact derives_objectOf (fun m hm => (hparts m hm).1) (fun m hm => (hparts m hm).2) hinner
    | case8 room start stop rest =>
      intro ih p h
      obtain ⟨q, hq, rfl⟩ := map_eq_ok_iff.1 h
      obtain ⟨init, last, hrest, hstop, parts, inner, hparts, hinner, hts, hvs⟩ :=
        listsItems_of_items (ih room room.lt_succ_self) q hq
      refine ⟨⟨.mark .openBracket, start, stop⟩ :: init, last, ?_, hstop, ?_⟩
      · exact congrArg _ hrest
      · show Derives (room + 1) (.mark .openBracket :: (init ++ [last]).map Lexeme.token) (.array q.result)
        rw [hts, hvs]
        exact .array hparts hinner
    | case9 => intro _ p h; cases h

end Soundness

/-! ### What is derived is read -/

section Completeness

variable {depth : Nat} {ts : List Token} {v v' : Value}

/-- If each part is read from the lexemes of its tokens, then so are all parts. -/
theorem ReadsParts.of_separated {α β : Type} {closing : Mark} {Part : α → List Lexeme → Prop}
    {Reads : List α → List Lexeme → List Lexeme → Prop} (h : ReadsParts closing Part Reads)
    {spelling : β → List Token} {content : β → α} {parts : List β}
    (hparts : ∀ x ∈ parts, ∀ ls, ls.map Lexeme.token = spelling x → Part (content x) ls)
    {spellings : List (List Token)} (hspellings : parts.map spelling = spellings)
    (hts : Separated spellings ts) {ls : List Lexeme}
    (hls : ls.map Lexeme.token = ts ++ [.mark closing]) (post : List Lexeme) :
    Reads (parts.map content) (ls ++ post) post := by
  induction hts generalizing parts ls with
  | none =>
    obtain rfl := List.map_eq_nil_iff.1 hspellings
    obtain ⟨⟨_, start, stop⟩, rfl, rfl⟩ := List.map_eq_singleton_iff.1 hls
    exact h.close start stop post
  | last part =>
    obtain ⟨x, rfl, rfl⟩ := List.map_eq_singleton_iff.1 hspellings
    obtain ⟨ls, closing, rfl, hpart, hclosing⟩ := List.map_eq_append_iff.1 hls
    obtain ⟨⟨_, start, stop⟩, rfl, rfl⟩ := List.map_eq_singleton_iff.1 hclosing
    rw [List.append_assoc]
    exact h.last start stop post (hparts x List.mem_cons_self ls hpart)
  | comma part hrest ih =>
    obtain ⟨x, parts, rfl, rfl, hrestSpellings⟩ := List.map_eq_cons_iff.1 hspellings
    rw [List.append_assoc, List.cons_append] at hls
    obtain ⟨ls, after, rfl, hpart, hafter⟩ := List.map_eq_append_iff.1 hls
    obtain ⟨⟨_, start, stop⟩, after, rfl, rfl, hbehind⟩ := List.map_eq_cons_iff.1 hafter
    have hreads := ih (fun y hy => hparts y (List.mem_cons_of_mem _ hy)) hrestSpellings hbehind
    rw [List.append_assoc]
    exact h.comma start stop (hparts x List.mem_cons_self ls hpart) hreads

/-- A lexeme whose token is a value. -/
theorem readAs_lexeme {t : Token} {ls : List Lexeme} (hls : ls.map Lexeme.token = [t])
    (hvalue : ∀ ending start stop post, Leaves (value ending depth (⟨t, start, stop⟩ :: post)) v post) :
    ReadAs depth v ls := by
  obtain ⟨⟨_, start, stop⟩, rfl, rfl⟩ := List.map_eq_singleton_iff.1 hls
  intro ending post
  exact hvalue ending start stop post

theorem readAs_word {w : String} {ls : List Lexeme} (hls : ls.map Lexeme.token = [.word w]) :
    ReadAs depth (wordValue w) ls := by
  refine readAs_lexeme hls ?_
  intro ending start stop post
  cases depth <;> exact ⟨_, _, rfl⟩

/-- **What is derived from the tokens of some lexemes is read from these lexemes, whatever follows.** -/
theorem Derives.readAs (h : Derives depth ts v) :
    ∀ ls : List Lexeme, ls.map Lexeme.token = ts → ReadAs depth v ls := by
  induction h with
  | @text depth s =>
    intro ls hls
    refine readAs_lexeme hls ?_
    intro ending start stop post
    cases depth <;> exact ⟨_, _, rfl⟩
  | @number depth n =>
    intro ls hls
    refine readAs_lexeme hls ?_
    intro ending start stop post
    cases depth <;> exact ⟨_, _, rfl⟩
  | isTrue =>
    intro ls hls
    exact readAs_word hls
  | isFalse =>
    intro ls hls
    exact readAs_word hls
  | null hw =>
    intro ls hls
    rcases hw with rfl | rfl
    · exact readAs_word hls
    · exact readAs_word hls
  | @word _ w hw =>
    intro ls hls
    have hvalue : wordValue w = .text w := by
      simp only [List.mem_cons, List.not_mem_nil, or_false, not_or] at hw
      simp [wordValue, hw]
    rw [← hvalue]
    exact readAs_word hls
  | array h hts ih =>
    intro ls hls ending post
    obtain ⟨⟨_, start, stop⟩, inner, rfl, rfl, hinner⟩ := List.map_eq_cons_iff.1 hls
    exact value_array ((readsParts_items _).of_separated ih rfl hts hinner post ending)
  | object hkeys h hts hentries ih =>
    intro ls hls ending post
    obtain ⟨⟨_, start, stop⟩, inner, rfl, rfl, hinner⟩ := List.map_eq_cons_iff.1 hls
    rw [← objectOf_eq hentries]
    refine value_object ((readsParts_members _).of_separated ?_ rfl hts hinner post ending)
    intro m hm member hmember
    obtain ⟨key, afterKey, rfl, hkey, hafterKey⟩ := List.map_eq_cons_iff.1 hmember
    obtain ⟨colon, afterColon, rfl, hcolon, hvalue⟩ := List.map_eq_cons_iff.1 hafterKey
    refine ⟨key, colon, afterColon, rfl, ?_, hcolon, ih m hm afterColon hvalue⟩
    rw [hkey]
    exact isKey_iff.1 (hkeys m hm)

/-- Tokens have one value only. -/
theorem Derives.unique (h : Derives depth ts v) (h' : Derives depth ts v') : v = v' := by
  -- any lexemes with these tokens will do
  have hls : (ts.map fun t => Lexeme.mk t [] []).map Lexeme.token = ts := by
    rw [List.map_map]
    exact List.map_id ts
  obtain ⟨_, _, hread⟩ := h.readAs _ hls ⟨.unexpectedEnd, []⟩ []
  obtain ⟨_, _, hread'⟩ := h'.readAs _ hls ⟨.unexpectedEnd, []⟩ []
  have hsame := hread.symm.trans hread'
  injection hsame with hsame
  injection hsame

end Completeness

/-! ### Whole texts -/

theorem readFront_eq_ok_iff {cs : List Char} {front : Front} :
    readFront cs = .ok front ↔ ∃ ls shorter, Lexeme.all cs = (ls, front.fault) ∧
      value (endingOf front.fault) maxDepth ls
        = .ok ⟨front.value, front.stop, front.following, shorter⟩ := by
  unfold readFront
  obtain ⟨ls, fault⟩ := Lexeme.all cs
  dsimp only
  rw [map_eq_ok_iff]
  constructor
  · rintro ⟨p, hvalue, rfl⟩
    exact ⟨ls, p.shorter, rfl, hvalue⟩
  · rintro ⟨_, shorter, hall, hvalue⟩
    obtain ⟨rfl, rfl⟩ := Prod.mk.inj hall
    exact ⟨_, hvalue, rfl⟩

/-- A text is decoded as the literal at its front if nothing is left behind it. -/
theorem decode_eq_ok_iff {text : String} {v : Value} :
    decode text = .ok v ↔ ∃ stop, readFront text.toList = .ok ⟨v, stop, [], none⟩ := by
  unfold decode readAll
  cases readFront text.toList with
  | error e => simp [Except.mapError]
  | ok front =>
    obtain ⟨v', stop, following, fault⟩ := front
    cases following <;> cases fault <;> simp [Except.mapError]

/-- **A text is decoded as a value iff it is cut into tokens up to its end and the value is derived from
these tokens, with arrays and objects nested no deeper than literals may be.** -/
theorem decode_eq_ok_iff_derives (text : String) (v : Value) :
    decode text = .ok v ↔
      ∃ ls, Lexeme.all text.toList = (ls, none) ∧ Derives maxDepth (ls.map Lexeme.token) v := by
  rw [decode_eq_ok_iff]
  constructor
  · rintro ⟨stop, hfront⟩
    obtain ⟨ls, shorter, hall, hvalue⟩ := readFront_eq_ok_iff.1 hfront
    have hpassed : Consumed (Derives maxDepth) ls v stop [] := derives_of_value ls _ hvalue
    obtain ⟨init, last, rfl, _, hderives⟩ := hpassed
    exact ⟨_, hall, hderives⟩
  · rintro ⟨ls, hall, hderives⟩
    have hread := hderives.readAs ls rfl (endingOf none) []
    rw [List.append_nil] at hread
    obtain ⟨stop, shorter, hvalue⟩ := hread
    exact ⟨stop, readFront_eq_ok_iff.2 ⟨ls, shorter, hall, hvalue⟩⟩

/-- The later of two equal keys counts, and a word that is no keyword is a text. -/
example : (decode? "\x7ba: 1, 'a': [null, nul,],\x7d").map Value.compact
    = some "\x7b\"a\":[null,\"nul\"]\x7d".toList := by
  decide +kernel

end ScriptBundle.Literal
