import ScriptBundle.Proofs.Script.Occurrences
import ScriptBundle.Proofs.Script.Pieces

/-!
# Places on either side of a piece

A name does not go on over a character that it does not hold.  So the places where a name stands in a script
are the places in the text in front of a comment, in the comment, and in the text behind it; and those in the
comment do not count.

## Main definitions

* `IsUnbroken`: names without a slash, a blank and a line feed.
* `Apart`: texts with no such name over the place where they meet.
* `flagsOf`: for each character of some pieces, whether it belongs to a comment.
* `places`: the places of a name in a script, comments aside.

## Main results

* `occurrences_append`: the occurrences in two texts that are apart.
* `places_eq`: **the places in a script are those in front of a comment and those behind it.**
-/

namespace ScriptBundle

/-- A place with more text behind it. -/
def Place.extend (p : Place) (r : List Char) : Place := ⟨p.past, p.rest ++ r⟩

/-- A place with more text before it, given from its end on. -/
def Place.behind (p : Place) (before : List Char) : Place := ⟨p.past ++ before, p.rest⟩

namespace Script

/-- The characters with which comments start and end, and a blank. -/
def isBreak (c : Char) : Bool := c == '/' || c == ' ' || c == '\n'

/-- A name without a slash, a blank and a line feed. -/
def IsUnbroken (name : List Char) : Prop := name ≠ [] ∧ ∀ c ∈ name, isBreak c = false

instance (name : List Char) : Decidable (IsUnbroken name) :=
  decidable_of_iff (name ≠ [] ∧ name.all (fun c => !isBreak c) = true) (by simp [IsUnbroken])

/-- There is no unbroken name over the place where two texts meet. -/
def Apart (s r : List Char) : Prop :=
  (∀ c ∈ s.getLast?, isBreak c = true) ∨ ∀ c ∈ r.head?, isBreak c = true

/-- For each character of some pieces, whether it belongs to a comment. -/
def flagsOf (segs : List Segment) : List Bool :=
  segs.flatMap fun s => s.text.map fun _ => s.kind == .comment

/-- The places that are not flagged. -/
def unflagged (flags : List Bool) (places : List Place) : List Place :=
  places.filter fun p => !(flags[p.past.length]?.getD false)

/-- The places of a name in a script that are not in comments. -/
def places (name source : List Char) : List Place :=
  unflagged (commentFlags source) (occurrences name source)

variable {name source past rest s r : List Char} {skip : Nat} {p : Place} {seg : Segment}
  {front back : List Segment}

theorem declarations_eq (name source : List Char) :
    declarations name source = (places name source).filterMap (declarationAt? name) := rfl

/-! ### Occurrences -/

theorem prefix_append_iff (hname : IsUnbroken name) (h : Apart s r) (hs : s ≠ []) :
    name <+: s ++ r ↔ name <+: s := by
  refine ⟨fun hprefix => ?_, fun hprefix => hprefix.trans (List.prefix_append s r)⟩
  rcases List.prefix_or_prefix_of_prefix hprefix (List.prefix_append s r) with hle | ⟨u, rfl⟩
  · exact hle
  cases u with
  | nil => simp
  | cons d u =>
    -- the last character of `s` and the first one of `r` both belong to the name
    exfalso
    rcases h with hlast | hfirst
    · have hmem := List.getLast_mem hs
      have hunbroken := hname.2 _ (List.mem_append_left (d :: u) hmem)
      cases hunbroken.symm.trans (hlast _ (List.getLast?_eq_getLast_of_ne_nil hs))
    · obtain ⟨v, hv⟩ := (List.prefix_append_right_inj s).1 hprefix
      have hunbroken := hname.2 d (List.mem_append_right s List.mem_cons_self)
      cases hunbroken.symm.trans (hfirst d (by rw [← hv]; rfl))

theorem Apart.of_cons {c : Char} (h : Apart (c :: s) r) : Apart s r := by
  refine h.imp_left fun hlast d hd => hlast d ?_
  rw [List.getLast?_cons, Option.mem_def.1 hd]
  rfl

theorem occurrencesFrom_append (hname : IsUnbroken name) (h : Apart s r) (hskip : skip ≤ s.length) :
    occurrencesFrom name skip past (s ++ r) =
      (occurrencesFrom name skip past s).map (Place.extend · r) ++
        occurrencesFrom name 0 (s.reverse ++ past) r := by
  induction s generalizing skip past with
  | nil =>
    obtain rfl : skip = 0 := Nat.le_zero.1 hskip
    rw [occurrencesFrom.eq_1, if_neg (by simpa using hname.1)]
    rfl
  | cons c s ih =>
    have hbehind : (c :: s).reverse ++ past = s.reverse ++ c :: past := by simp
    rw [hbehind, List.cons_append]
    cases skip with
    | succ skip =>
      rw [occurrencesFrom, occurrencesFrom]
      exact ih h.of_cons (Nat.le_of_succ_le_succ hskip)
    | zero =>
      have hprefix : name.isPrefixOf (c :: (s ++ r)) = name.isPrefixOf (c :: s) := by
        rw [Bool.eq_iff_iff, List.isPrefixOf_iff_prefix, List.isPrefixOf_iff_prefix]
        exact prefix_append_iff hname h (List.cons_ne_nil c s)
      rw [occurrencesFrom, occurrencesFrom, hprefix]
      split
      · next hstands =>
        have hlength := (List.isPrefixOf_iff_prefix.1 hstands).length_le
        rw [List.length_cons] at hlength
        rw [ih h.of_cons (by omega)]
        rfl
      · exact ih h.of_cons (Nat.zero_le _)

theorem occurrencesFrom_behind (name past before rest : List Char) (skip : Nat) :
    occurrencesFrom name skip (past ++ before) rest =
      (occurrencesFrom name skip past rest).map (Place.behind · before) := by
  induction rest generalizing skip past with
  | nil =>
    cases skip with
    | zero =>
      rw [occurrencesFrom, occurrencesFrom]
      split <;> rfl
    | succ skip => rfl
  | cons c rest ih =>
    cases skip with
    | zero =>
      rw [occurrencesFrom, occurrencesFrom, ← List.cons_append, ih, ih]
      split <;> rfl
    | succ skip =>
      rw [occurrencesFrom, occurrencesFrom, ← List.cons_append, ih]

theorem Piece.apart_comment {text : List Char} (h : Piece ⟨.comment, text⟩ r) : Apart text r := by
  refine h.comment_end.imp ?_ ?_
  · intro hlast
    rw [hlast]
    rintro c ⟨⟩
    rfl
  · intro hline c hc
    rw [hline c hc]
    rfl

/-- A name stands in two texts that are apart where it stands in one of them. -/
theorem occurrences_append (hname : IsUnbroken name) (h : Apart s r) :
    occurrences name (s ++ r) = (occurrences name s).map (Place.extend · r) ++
      (occurrences name r).map (Place.behind · s.reverse) := by
  have hbehind := occurrencesFrom_behind name [] s.reverse r 0
  rw [List.nil_append] at hbehind
  rw [occurrences, occurrencesFrom_append hname h (Nat.zero_le _), List.append_nil, hbehind]
  rfl

theorem prefix_of_mem_occurrencesFrom (h : p ∈ occurrencesFrom name skip past rest) : name <+: p.rest := by
  fun_induction occurrencesFrom name skip past rest with
  | case1 past hempty =>
    obtain rfl := List.mem_singleton.1 h
    obtain rfl := List.isEmpty_iff.1 hempty
    exact List.nil_prefix
  | case2 => cases h
  | case3 => cases h
  | case4 skip past c cs ih => exact ih h
  | case5 past c cs hname ih =>
    rcases List.mem_cons.1 h with rfl | h
    · exact List.isPrefixOf_iff_prefix.1 hname
    · exact ih h
  | case6 past c cs hname ih => exact ih h

theorem prefix_of_mem_occurrences (h : p ∈ occurrences name source) : name <+: p.rest :=
  prefix_of_mem_occurrencesFrom h

/-- A place lies in the text of which it is a place. -/
theorem length_past_lt (hname : IsUnbroken name) (h : p ∈ occurrences name source) :
    p.past.length < source.length := by
  have hrest : p.rest ≠ [] := fun hnil =>
    hname.1 (List.prefix_nil.1 (hnil ▸ prefix_of_mem_occurrences h))
  have hlength := congrArg List.length (source_of_mem_occurrences h)
  rw [Place.source, List.length_append, List.length_reverse] at hlength
  have hpos := List.length_pos_of_ne_nil hrest
  omega

/-! ### Flags -/

theorem commentFlags_eq (cs : List Char) : commentFlags cs = flagsOf (segments cs) := rfl

theorem flagsOf_append (segs segs' : List Segment) : flagsOf (segs ++ segs') = flagsOf segs ++ flagsOf segs' :=
  List.flatMap_append

theorem flagsOf_cons (seg : Segment) (segs : List Segment) :
    flagsOf (seg :: segs) = flagsOf [seg] ++ flagsOf segs :=
  flagsOf_append [seg] segs

theorem length_flagsOf (segs : List Segment) : (flagsOf segs).length = (textOf segs).length := by
  simp [flagsOf, textOf, List.length_flatMap]

theorem unflagged_append (flags : List Bool) (ps qs : List Place) :
    unflagged flags (ps ++ qs) = unflagged flags ps ++ unflagged flags qs :=
  List.filter_append ps qs

/-- In the first part of a text only its own flags count. -/
theorem unflagged_extend {flags more : List Bool} {ps : List Place} (r : List Char)
    (h : ∀ p ∈ ps, p.past.length < flags.length) :
    unflagged (flags ++ more) (ps.map (Place.extend · r)) = (unflagged flags ps).map (Place.extend · r) := by
  rw [unflagged, List.filter_map, unflagged]
  refine congrArg (List.map (Place.extend · r)) (List.filter_congr fun p hp => ?_)
  show (!((flags ++ more)[p.past.length]?.getD false)) = _
  rw [List.getElem?_append_left (h p hp)]

/-- In the second part of a text only its own flags count. -/
theorem unflagged_behind {flags more : List Bool} {before : List Char} (ps : List Place)
    (h : flags.length = before.length) :
    unflagged (flags ++ more) (ps.map (Place.behind · before))
      = (unflagged more ps).map (Place.behind · before) := by
  rw [unflagged, List.filter_map, unflagged]
  refine congrArg (List.map (Place.behind · before)) (List.filter_congr fun p _ => ?_)
  show (!((flags ++ more)[(p.past ++ before).length]?.getD false)) = _
  rw [List.length_append, ← h, List.getElem?_append_right (by omega), Nat.add_sub_cancel]

/-- In a comment all places are flagged. -/
theorem unflagged_comment (hname : IsUnbroken name) (text : List Char) :
    unflagged (flagsOf [⟨.comment, text⟩]) (occurrences name text) = [] := by
  refine List.filter_eq_nil_iff.2 fun p hp => ?_
  have hlt := length_past_lt hname hp
  simp [flagsOf, hlt]

/-- No name stands in a blank. -/
theorem occurrences_blank (hname : IsUnbroken name) : occurrences name [' '] = [] := by
  obtain ⟨hne, hunbroken⟩ := hname
  obtain ⟨d, name, rfl⟩ := List.exists_cons_of_ne_nil hne
  have hd : d ≠ ' ' := by
    rintro rfl
    cases hunbroken ' ' List.mem_cons_self
  simp [occurrences, occurrencesFrom, hd]

/-- **The places of a name in a script are those in front of a piece and those behind it, if there are none in
this piece.** -/
theorem places_eq (hname : IsUnbroken name) (h : segments source = front ++ seg :: back)
    (hfront : Apart (textOf front) (seg.text ++ textOf back)) (hback : Apart seg.text (textOf back))
    (hnone : unflagged (flagsOf [seg]) (occurrences name seg.text) = []) :
    places name source =
      (unflagged (flagsOf front) (occurrences name (textOf front))).map
        (Place.extend · (seg.text ++ textOf back)) ++
      (unflagged (flagsOf back) (occurrences name (textOf back))).map
        (Place.behind · (seg.text.reverse ++ (textOf front).reverse)) := by
  have hsource : source = textOf front ++ (seg.text ++ textOf back) := by
    rw [← textOf_segments source, h, textOf_append, textOf_cons]
  have hfrontFlags : ∀ p ∈ occurrences name (textOf front), p.past.length < (flagsOf front).length := by
    intro p hp
    rw [length_flagsOf]
    exact length_past_lt hname hp
  have hsegFlags : ∀ p ∈ occurrences name seg.text, p.past.length < (flagsOf [seg]).length := by
    intro p hp
    have hlt := length_past_lt hname hp
    simpa [length_flagsOf, textOf] using hlt
  -- what stands behind the first part is cut in the same way once more
  have hrest : unflagged (flagsOf [seg] ++ flagsOf back) (occurrences name (seg.text ++ textOf back)) =
      (unflagged (flagsOf back) (occurrences name (textOf back))).map (Place.behind · seg.text.reverse) := by
    rw [occurrences_append hname hback, unflagged_append, unflagged_extend _ hsegFlags, hnone,
      unflagged_behind _ (by simp [length_flagsOf, textOf])]
    rfl
  rw [places, commentFlags_eq, h, flagsOf_append, flagsOf_cons, hsource, occurrences_append hname hfront,
    unflagged_append, unflagged_extend _ hfrontFlags,
    unflagged_behind _ (by rw [length_flagsOf, List.length_reverse]), hrest, List.map_map]
  simp [Function.comp_def, Place.behind]

end Script

end ScriptBundle
