import ScriptBundle.Proofs.Literal.Spacing
import ScriptBundle.Proofs.Script.Places

/-!
# The gaps of a declaration

Between a name and the sign that joins it to its literal, between this sign and the literal, and between the
literal of a call and its closing parenthesis only blanks are passed over.  With a comment there nothing is
declared.  Everywhere else a comment may stand in the place of a blank: the same literal is read.

## Main definitions

* `gaps`: the texts from the gaps of a declaration on.
* `Declaration.EndsBefore`: a literal is read before some end of the text.

## Main results

* `declarationAt?_behind_comment`: the comment in front of a name does not matter.
* `declarationAt?_extend`: neither does a comment behind the start of the literal.
* `read_eq_none_of_mem_gaps`: **with a comment in a gap nothing is declared.**
* `readAt_extend_eq`: **outside the gaps a blank may stand in the place of a comment.**
-/

namespace ScriptBundle

variable {name past l r x tail text before : List Char} {p : Place} {d : Declaration} {c : Char}

/-- A declaration with more text behind it. -/
def Declaration.extend (d : Declaration) (r : List Char) : Declaration := ⟨d.literal ++ r, d.isCall⟩

/-- The text behind the literal of a call. -/
def Declaration.callEnd? (d : Declaration) : Option (List Char) :=
  if d.isCall then (Literal.readFront d.literal).toOption.map Literal.Front.stop else none

/-- The literal of a declaration is read, and `tail` is not reached. -/
def Declaration.EndsBefore (d : Declaration) (tail : List Char) : Prop :=
  ∃ front, Literal.readFront d.literal = .ok front ∧ tail <:+ front.stop

namespace Script

/-- The text behind a name and the quotes and brackets around it. -/
def behindName? (name : List Char) (p : Place) : Option (List Char) :=
  afterName? p.past (p.rest.drop name.length)

/-- The sign that joins a name and its literal: whether it makes a call, and the text behind it. -/
def behindJoint? (name : List Char) (p : Place) : Option (Bool × List Char) :=
  (behindName? name p).bind fun after => joint? (Text.trimLeft after)

/-- The texts from the gaps of a declaration on: behind its name, behind the sign that joins the name to the
literal, and behind the literal of a call. -/
def gaps (name : List Char) (p : Place) : List (List Char) :=
  (behindName? name p).toList ++ (behindJoint? name p).toList.map Prod.snd ++
    (declarationAt? name p).toList.filterMap Declaration.callEnd?

/-! ### What stands in front of a name -/

/-- A character that has no part in a declaration if it stands in front of it. -/
def IsNeutral (c : Char) : Prop := isWordRest c = false ∧ c ≠ '"' ∧ c ≠ '\'' ∧ c ≠ '['

instance : DecidablePred IsNeutral := fun _ => inferInstanceAs (Decidable (_ ∧ _))

theorem afterName?_append (hc : IsNeutral c) (past before after : List Char) :
    afterName? (past ++ c :: before) after = afterName? past after := by
  obtain ⟨hword, hdouble, hsingle, hbracket⟩ := hc
  cases past with
  | nil => simp [afterName?, hword, hdouble, hsingle]
  | cons d past =>
    have hhead : (past ++ c :: before).head? = some '[' ↔ past.head? = some '[' := by
      cases past <;> simp [hbracket]
    simp only [List.cons_append, afterName?, hhead]

theorem declarationAt?_behind (hc : IsNeutral c) (name before : List Char) (p : Place) :
    declarationAt? name (p.behind (c :: before)) = declarationAt? name p := by
  simp only [declarationAt?, Place.behind, afterName?_append hc]

/-- The comment in front of a name does not matter. -/
theorem declarationAt?_behind_comment (hname : IsUnbroken name) (h : Piece ⟨.comment, text⟩ r)
    (hp : p ∈ occurrences name r) (before : List Char) :
    declarationAt? name (p.behind (text.reverse ++ before)) = declarationAt? name p := by
  rcases h.comment_end with hlast | hline
  · obtain ⟨cs, rfl⟩ := List.getLast?_eq_some_iff.1 hlast
    rw [List.reverse_append]
    exact declarationAt?_behind (by decide) name _ p
  · have hsource := source_of_mem_occurrences hp
    obtain ⟨past, rest⟩ := p
    rcases List.eq_nil_or_concat past with rfl | ⟨past, d, rfl⟩
    · -- the name would start with the end of the line
      obtain ⟨d, name, rfl⟩ := List.exists_cons_of_ne_nil hname.1
      obtain rfl : rest = r := hsource
      obtain ⟨rest', hrest⟩ : d :: name <+: rest := prefix_of_mem_occurrences hp
      obtain rfl : d = '\n' := hline d (by rw [← hrest]; rfl)
      cases hname.2 '\n' List.mem_cons_self
    · rw [Place.source, List.concat_eq_append, List.reverse_append] at hsource
      obtain rfl : d = '\n' := hline d (by rw [← hsource]; rfl)
      have hbehind : ∀ before, (⟨past.concat '\n', rest⟩ : Place).behind before
          = (⟨past, rest⟩ : Place).behind ('\n' :: before) := by
        intro before
        simp [Place.behind]
      have hself := hbehind []
      rw [Place.behind, List.append_nil] at hself
      rw [hbehind, hself, declarationAt?_behind (by decide), declarationAt?_behind (by decide)]

/-! ### What stands behind a name -/

/-- A text that starts with a slash or a blank. -/
def IsSpacer (x : List Char) : Prop := x.head? = some '/' ∨ x.head? = some ' '

theorem IsSpacer.head_ne (hx : IsSpacer x) {d : Char} (hslash : d ≠ '/') (hblank : d ≠ ' ') :
    x.head? ≠ some d := by
  intro hd
  rcases hx with hx | hx
  · exact hslash (Option.some.inj (hd.symm.trans hx))
  · exact hblank (Option.some.inj (hd.symm.trans hx))

theorem head?_append_eq_iff (hx : x.head? ≠ some c) : (l ++ x).head? = some c ↔ l.head? = some c := by
  cases l with
  | nil => simpa using hx
  | cons d l => rfl

theorem expectChar_append (hx : x.head? ≠ some c) (l : List Char) :
    expectChar c (l ++ x) = (expectChar c l).map (· ++ x) := by
  cases l with
  | nil =>
    cases x with
    | nil => rfl
    | cons d x => exact if_neg fun hd => hx (congrArg some hd)
  | cons d l =>
    show (if d = c then some (l ++ x) else none) = _
    by_cases hd : d = c <;> simp [expectChar, hd]

theorem afterName?_extend (hx : IsSpacer x) (past l : List Char) :
    afterName? past (l ++ x) = (afterName? past l).map (· ++ x) := by
  cases past with
  | nil => rfl
  | cons c before =>
    by_cases hword : isWordRest c = true
    · simp [afterName?, hword]
    by_cases hquote : c = '"' ∨ c = '\''
    · have hc : x.head? ≠ some c := by
        rcases hquote with rfl | rfl <;> exact hx.head_ne (by decide) (by decide)
      have hbracket : x.head? ≠ some ']' := hx.head_ne (by decide) (by decide)
      simp only [afterName?, if_neg hword, if_pos hquote, expectChar_append hc]
      cases expectChar c l with
      | none => rfl
      | some after =>
        by_cases hbefore : before.head? = some '[' <;> simp [hbefore, expectChar_append hbracket]
    · simp [afterName?, hword, hquote]

theorem append_ne_cons (hl : ∀ cs, l ≠ c :: cs) (hx : x.head? ≠ some c) (cs : List Char) :
    l ++ x ≠ c :: cs := by
  intro heq
  cases l with
  | nil => exact hx (by rw [List.nil_append] at heq; rw [heq]; rfl)
  | cons d l => exact hl l (by rw [(List.cons.inj heq).1])

theorem joint?_append (hx : IsSpacer x) (l : List Char) :
    joint? (l ++ x) = (joint? l).map fun j => (j.1, j.2 ++ x) := by
  have hequal : x.head? ≠ some '=' := hx.head_ne (by decide) (by decide)
  have harrow : x.head? ≠ some '>' := hx.head_ne (by decide) (by decide)
  fun_cases joint? l with
  | case1 cs => rfl
  | case2 cs => rfl
  | case3 cs hhead =>
    rw [← head?_append_eq_iff hequal, ← head?_append_eq_iff harrow] at hhead
    exact if_pos hhead
  | case4 cs hhead =>
    rw [← head?_append_eq_iff hequal, ← head?_append_eq_iff harrow] at hhead
    exact if_neg hhead
  | case5 l hcall hproperty hassignment =>
    rw [Option.map_none, joint?]
    · exact append_ne_cons hcall (hx.head_ne (by decide) (by decide))
    · exact append_ne_cons hproperty (hx.head_ne (by decide) (by decide))
    · exact append_ne_cons hassignment hequal

theorem startsLiteral_append (hx : IsSpacer x) (l : List Char) : startsLiteral (l ++ x) = startsLiteral l := by
  cases l with
  | cons c l => rfl
  | nil =>
    cases x with
    | nil => rfl
    | cons c x => rcases hx with hx | hx <;> cases hx <;> rfl

theorem any_head?_append (hx : IsSpacer x) (l : List Char) :
    ((l ++ x).head?).any isWordRest = (l.head?).any isWordRest := by
  cases l with
  | cons c l => rfl
  | nil =>
    rw [List.nil_append]
    rcases hx with hx | hx <;> rw [hx] <;> rfl

theorem trimLeft_append (h : Text.trimLeft l ≠ []) (x : List Char) :
    Text.trimLeft (l ++ x) = Text.trimLeft l ++ x := by
  rw [Text.trimLeft, List.dropWhile_append, if_neg (by simpa [Text.trimLeft] using h)]
  rfl

theorem trimLeft_append_of_nil (h : Text.trimLeft l = []) (x : List Char) :
    Text.trimLeft (l ++ x) = Text.trimLeft x := by
  rw [Text.trimLeft, List.dropWhile_append, if_pos (by simpa [Text.trimLeft] using h)]
  rfl

/-! ### Declarations and their gaps -/

theorem declarationAt?_eq (name : List Char) (p : Place) :
    declarationAt? name p =
      if (behindName? name p).any fun after => (after.head?).any isWordRest then none
      else (behindJoint? name p).bind fun j =>
        if startsLiteral (Text.trimLeft j.2) then some ⟨Text.trimLeft j.2, j.1⟩ else none := by
  unfold declarationAt? behindJoint? behindName?
  cases afterName? p.past (p.rest.drop name.length) with
  | none => rfl
  | some after =>
    by_cases hword : (after.head?).any isWordRest = true
    · simp [hword]
    · cases hjoint : joint? (Text.trimLeft after) <;> simp [hword, hjoint]

theorem behindName?_extend (hx : IsSpacer x) (hname : name <+: p.rest) :
    behindName? name (p.extend x) = (behindName? name p).map (· ++ x) := by
  have hdrop : (p.rest ++ x).drop name.length = p.rest.drop name.length ++ x :=
    List.drop_append_of_le_length hname.length_le
  rw [behindName?, Place.extend, hdrop, afterName?_extend hx, behindName?]

theorem behindJoint?_extend (hx : IsSpacer x) (hname : name <+: p.rest)
    (hgap : ∀ after ∈ behindName? name p, Text.trimLeft after ≠ []) :
    behindJoint? name (p.extend x) = (behindJoint? name p).map fun j => (j.1, j.2 ++ x) := by
  rw [behindJoint?, behindName?_extend hx hname, behindJoint?]
  cases hafter : behindName? name p with
  | none => rfl
  | some after =>
    show joint? (Text.trimLeft (after ++ x)) = _
    rw [trimLeft_append (hgap after hafter), joint?_append hx]
    rfl

/-- What stands behind the start of the literal does not matter, if something else than blanks stands in the
gaps in front of it. -/
theorem declarationAt?_extend (hx : IsSpacer x) (hname : name <+: p.rest)
    (hgap : ∀ after ∈ behindName? name p, Text.trimLeft after ≠ [])
    (hgap' : ∀ j ∈ behindJoint? name p, Text.trimLeft j.2 ≠ []) :
    declarationAt? name (p.extend x) = (declarationAt? name p).map (Declaration.extend · x) := by
  rw [declarationAt?_eq, declarationAt?_eq, behindName?_extend hx hname, behindJoint?_extend hx hname hgap]
  have hword : ((behindName? name p).map (· ++ x)).any (fun after => (after.head?).any isWordRest)
      = (behindName? name p).any fun after => (after.head?).any isWordRest := by
    cases behindName? name p with
    | none => rfl
    | some after => exact any_head?_append hx after
  rw [hword]
  split
  · rfl
  · cases hjoint : behindJoint? name p with
    | none => rfl
    | some j =>
      simp only [Option.map_some, Option.bind_some, trimLeft_append (hgap' j hjoint), startsLiteral_append hx]
      split <;> rfl

theorem trimLeft_of_slash (htail : tail.head? = some '/') : Text.trimLeft tail = tail := by
  obtain ⟨cs, rfl⟩ := List.head?_eq_some_iff.1 htail
  exact List.dropWhile_cons_of_neg (by decide)

theorem trimLeft_ne_nil (htail : tail.head? = some '/') (h : Text.trimLeft (l ++ tail) ≠ tail) :
    Text.trimLeft l ≠ [] :=
  fun hnil => h ((trimLeft_append_of_nil hnil tail).trans (trimLeft_of_slash htail))

/-- **A name with a comment in no gap begins the same declaration if a blank stands in its place.** -/
theorem declarationAt?_extend_of_gaps (htail : tail.head? = some '/') (hname : name <+: p.rest)
    (hgaps : ∀ gap ∈ gaps name (p.extend tail), Text.trimLeft gap ≠ tail) (hx : IsSpacer x) :
    declarationAt? name (p.extend x) = (declarationAt? name p).map (Declaration.extend · x) := by
  have hgap : ∀ after ∈ behindName? name p, Text.trimLeft after ≠ [] := by
    intro after hafter
    refine trimLeft_ne_nil htail (hgaps _ ?_)
    rw [gaps, behindName?_extend (.inl htail) hname, Option.mem_def.1 hafter]
    simp
  refine declarationAt?_extend hx hname hgap fun j hj => trimLeft_ne_nil htail (hgaps _ ?_)
  rw [gaps, behindJoint?_extend (.inl htail) hname hgap, Option.mem_def.1 hj]
  simp

theorem mem_gaps_iff {gap : List Char} :
    gap ∈ gaps name p ↔ behindName? name p = some gap ∨ (∃ isCall, behindJoint? name p = some (isCall, gap)) ∨
      ∃ d front, declarationAt? name p = some d ∧ d.isCall = true ∧
        Literal.readFront d.literal = .ok front ∧ front.stop = gap := by
  have hcall : ∀ d : Declaration, d.callEnd? = some gap ↔
      ∃ front, d.isCall = true ∧ Literal.readFront d.literal = .ok front ∧ front.stop = gap := by
    intro d
    unfold Declaration.callEnd?
    rcases hread : Literal.readFront d.literal with s | front <;> cases d.isCall <;>
      simp [Except.toOption]
  simp [gaps, hcall, or_assoc]

/-- What a declaration is made of. -/
theorem declarationAt?_eq_some (h : declarationAt? name p = some d) :
    ∃ after isCall rest, behindName? name p = some after ∧ joint? (Text.trimLeft after) = some (isCall, rest) ∧
      startsLiteral (Text.trimLeft rest) = true ∧ d = ⟨Text.trimLeft rest, isCall⟩ := by
  rw [declarationAt?_eq] at h
  split at h
  · cases h
  obtain ⟨⟨isCall, rest⟩, hjoint, h⟩ := Option.bind_eq_some_iff.1 h
  obtain ⟨after, hafter, hjoint⟩ := Option.bind_eq_some_iff.1 hjoint
  split at h
  · next hstarts => exact ⟨after, isCall, rest, hafter, hjoint, hstarts, (Option.some.inj h).symm⟩
  · cases h

/-- **With a comment in a gap nothing is declared.** -/
theorem read_eq_none_of_mem_gaps (htail : tail.head? = some '/')
    (h : ∃ gap ∈ gaps name p, Text.trimLeft gap = tail) (hd : declarationAt? name p = some d) :
    d.read = .ok none := by
  obtain ⟨gap, hmem, rfl⟩ := h
  obtain ⟨cs, hcs⟩ := List.head?_eq_some_iff.1 htail
  obtain ⟨after, isCall, rest, hafter, hjoint, hstarts, heq⟩ := declarationAt?_eq_some hd
  rcases mem_gaps_iff.1 hmem with hname | ⟨isCall', hrest⟩ | ⟨d', front, hd', hcall, hread, rfl⟩
  · -- a slash joins no name and no literal
    obtain rfl := Option.some.inj (hname.symm.trans hafter)
    rw [hcs] at hjoint
    cases hjoint
  · -- no literal starts with a slash
    have hbehind : behindJoint? name p = some (isCall, rest) := by
      rw [behindJoint?, hafter]
      exact hjoint
    obtain ⟨-, rfl⟩ := Prod.mk.inj (Option.some.inj (hrest.symm.trans hbehind))
    rw [hcs] at hstarts
    cases hstarts
  · -- a slash is no closing parenthesis
    obtain rfl := Option.some.inj (hd'.symm.trans hd)
    rw [Declaration.read, hread, hcall]
    show Except.ok (if (true && (Text.trimLeft front.stop).head? != some ')') = true then _ else _) = _
    rw [hcs]
    rfl

/-! ### The literal with a blank in the place of a comment -/

variable {tail' : List Char}

/-- Declarations whose literals are read alike are alike. -/
theorem read_toOption_eq {d d' : Declaration} (hcall : d'.isCall = d.isCall)
    (hread : ∀ front, Literal.readFront d.literal = .ok front →
      ∃ front', Literal.readFront d'.literal = .ok front' ∧ front'.value = front.value ∧
        (d.isCall = true → (Text.trimLeft front'.stop).head? = (Text.trimLeft front.stop).head?))
    (hread' : ∀ front', Literal.readFront d'.literal = .ok front' →
      ∃ front, Literal.readFront d.literal = .ok front) :
    d'.read.toOption = d.read.toOption := by
  cases h : Literal.readFront d.literal with
  | ok front =>
    obtain ⟨front', h', hvalue, hhead⟩ := hread front h
    rw [Declaration.read, Declaration.read, h, h', hcall]
    show some (if _ then _ else _) = some (if _ then _ else _)
    rw [hvalue]
    cases hc : d.isCall with
    | false => rfl
    | true => rw [hhead hc]
  | error s =>
    cases h' : Literal.readFront d'.literal with
    | ok front' =>
      obtain ⟨front, hok⟩ := hread' front' h'
      cases h.symm.trans hok
    | error s' =>
      rw [Declaration.read, Declaration.read, h, h']
      rfl

/-- Behind a literal the same character comes first. -/
theorem SamePieces.head?_trimLeft (h : SamePieces tail tail' r x) (htail : tail.head? = some '/')
    (hgap : Text.trimLeft r ≠ tail) : (Text.trimLeft x).head? = (Text.trimLeft r).head? := by
  induction h with
  | refl r => rfl
  | split => exact absurd (trimLeft_of_slash htail) hgap
  | @piece seg r r' h _ _ ih =>
    obtain ⟨c, text, htext⟩ := h.exists_text
    by_cases hblank : Text.isBlank c = true
    · have hcons : ∀ r, Text.trimLeft (seg.text ++ r) = Text.trimLeft r := by
        intro r
        rw [htext, h.eq_nil_of_blank htext hblank]
        exact List.dropWhile_cons_of_pos hblank
      rw [hcons] at hgap
      rw [hcons, hcons, ih hgap]
    · have hcons : ∀ r, Text.trimLeft (seg.text ++ r) = seg.text ++ r := by
        intro r
        rw [htext]
        exact List.dropWhile_cons_of_neg hblank
      rw [hcons, hcons, htext]
      rfl

/-- A literal that is made of whole pieces is read with a blank in the place of a comment as with the
comment. -/
theorem read_extend_of_samePieces (hinter : Interchangeable tail tail') (htail : tail.head? = some '/')
    (h : SamePieces tail tail' (d.literal ++ tail) (d.literal ++ tail'))
    (hgap : ∀ front, d.isCall = true → Literal.readFront (d.literal ++ tail) = .ok front →
      Text.trimLeft front.stop ≠ tail) :
    (d.extend tail').read.toOption = (d.extend tail).read.toOption := by
  refine read_toOption_eq (d := d.extend tail) rfl ?_ ?_
  · intro front hread
    obtain ⟨front', hread', hvalue, hstop⟩ := h.exists_readFront hinter hread
    exact ⟨front', hread', hvalue, fun hcall => hstop.head?_trimLeft htail (hgap front hcall hread)⟩
  · intro front' hread'
    obtain ⟨front, hread, -⟩ := h.symm.exists_readFront hinter.symm hread'
    exact ⟨front, hread⟩

theorem afterTrivia_of_startsLiteral (h : startsLiteral l = true) : Text.afterTrivia l = l := by
  cases l with
  | nil => cases h
  | cons c l =>
    have hc : c = '\x7b' ∨ c = '[' ∨ c = '"' ∨ c = '\'' := by
      simpa [startsLiteral, or_assoc] using h
    rcases hc with rfl | rfl | rfl | rfl <;>
      exact Text.afterTrivia_cons rfl fun hslash => absurd hslash (by decide)

/-- A literal that ends before a comment is read alike whatever stands in the place of the comment. -/
theorem read_extend_of_endsBefore (htail : tail.head? = some '/') (hstarts : startsLiteral d.literal = true)
    (h : (d.extend tail).EndsBefore tail)
    (hgap : ∀ front, d.isCall = true → Literal.readFront (d.literal ++ tail) = .ok front →
      Text.trimLeft front.stop ≠ tail) :
    (d.extend tail').read.toOption = (d.extend tail).read.toOption := by
  obtain ⟨front, hread, u, hu⟩ := h
  obtain ⟨before, hbefore, -, hlocal⟩ := Literal.exists_before hread
  have hliteral : d.literal = before ++ u := by
    have hcut : d.literal ++ tail = before ++ front.stop := hbefore
    rw [← hu, ← List.append_assoc] at hcut
    exact List.append_cancel_right hcut
  have hstarts' : startsLiteral (d.literal ++ tail) = true :=
    (startsLiteral_append (.inl htail) _).trans hstarts
  have hany := hlocal ((congrArg startsLiteral (afterTrivia_of_startsLiteral hstarts')).trans hstarts')
  refine read_toOption_eq (d := d.extend tail) rfl ?_ fun _ _ => ⟨front, hread⟩
  intro front' hread'
  obtain rfl := Except.ok.inj (hread.symm.trans hread')
  have hother := hany (u ++ tail')
  rw [← List.append_assoc, ← hliteral] at hother
  refine ⟨_, hother, rfl, fun hcall => ?_⟩
  -- something else than blanks stands in the gap, and it is the same in both texts
  have hu' : Text.trimLeft u ≠ [] := trimLeft_ne_nil htail (hu ▸ hgap front hcall hread)
  obtain ⟨c, cs, hcs⟩ := List.exists_cons_of_ne_nil hu'
  rw [← hu, trimLeft_append hu', trimLeft_append hu', hcs]
  rfl

/-- **A name with a comment in no gap declares the same if a blank stands in the place of the comment.**  The
literal has to end before the comment, or it has to be made of whole pieces up to there. -/
theorem readAt_extend_eq (hinter : Interchangeable tail tail') (htail : tail.head? = some '/')
    (htail' : tail'.head? = some ' ') (hname : name <+: p.rest)
    (hgaps : ∀ gap ∈ gaps name (p.extend tail), Text.trimLeft gap ≠ tail)
    (hliteral : ∀ d, declarationAt? name p = some d → (d.extend tail).EndsBefore tail ∨
      SamePieces tail tail' (d.literal ++ tail) (d.literal ++ tail')) :
    (declarationAt? name (p.extend tail')).map (fun d => d.read.toOption) =
      (declarationAt? name (p.extend tail)).map fun d => d.read.toOption := by
  have hextend := fun x hx => declarationAt?_extend_of_gaps (x := x) htail hname hgaps hx
  rw [hextend tail' (.inr htail'), hextend tail (.inl htail), Option.map_map, Option.map_map]
  cases hd : declarationAt? name p with
  | none => rfl
  | some d =>
    obtain ⟨after, isCall, rest, -, -, hstarts, rfl⟩ := declarationAt?_eq_some hd
    have hgap : ∀ front, isCall = true → Literal.readFront (Text.trimLeft rest ++ tail) = .ok front →
        Text.trimLeft front.stop ≠ tail := by
      intro front hcall hread
      have hd' : declarationAt? name (p.extend tail) = some ⟨Text.trimLeft rest ++ tail, isCall⟩ := by
        rw [hextend tail (.inl htail), hd]
        rfl
      exact hgaps _ (mem_gaps_iff.2 (.inr (.inr ⟨_, front, hd', hcall, hread, rfl⟩)))
    refine congrArg some ?_
    rcases hliteral _ hd with hends | hsame
    · exact read_extend_of_endsBefore htail hstarts hends hgap
    · exact read_extend_of_samePieces hinter htail hsame hgap

end Script

end ScriptBundle
