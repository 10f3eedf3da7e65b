import ScriptBundle.Proofs.Script.Accounting
import ScriptBundle.Proofs.Script.Gaps

/-!
# Comments in a script

A comment in a script may be exchanged for a blank, and the script has the same dependencies, if the comment
stands outside the gaps of its declarations.  A declaration with the comment in a gap is passed over, and
there is no diagnostic about it.

## Main definitions

* `Finding.unworded`: a finding without the wording of a diagnostic.
* `Manifest.summary`: the dependencies of a script and the number of its diagnostics.

## Main results

* `isSelfRegistering_blank`: a comment outside the parameters of the wrapper does not matter.
* `Manifest.summary_congr`: what a script says depends on the values of its declarations only.
* `Manifest.ofSource_blank`: **a script has the same dependencies with a blank in the place of a comment that
  stands in no gap.**
-/

namespace ScriptBundle

variable {c : Convention} {source source' comment A x : List Char} {front back : List Segment}
  {kind : DependencyKind}

/-! ### The wrapper -/

namespace Script

theorem takeWhile_of_mem {p : Char → Bool} {d : Char} {cs : List Char} (h : d ∈ cs) (hd : p d = false)
    (x : List Char) : (cs ++ x).takeWhile p = cs.takeWhile p := by
  induction cs with
  | nil => cases h
  | cons c cs ih =>
    rw [List.cons_append]
    by_cases hc : p c = true
    · have hmem : d ∈ cs := by
        refine (List.mem_cons.1 h).resolve_left ?_
        rintro rfl
        cases hd.symm.trans hc
      rw [List.takeWhile_cons_of_pos hc, List.takeWhile_cons_of_pos hc, ih hmem]
    · rw [List.takeWhile_cons_of_neg hc, List.takeWhile_cons_of_neg hc]

theorem parameterGroup?_of_afterTrivia {rest : List Char} (h : Text.afterTrivia source = '(' :: rest) :
    parameterGroup? source = if rest.contains ')' then some (rest.takeWhile (· != ')')) else none := by
  rw [parameterGroup?, h]
  rfl

/-- The parameters are the same whatever stands behind them. -/
theorem parameterGroup?_append (h : (parameterGroup? A).isSome = true) (x : List Char) :
    parameterGroup? (A ++ x) = parameterGroup? A := by
  have hopen : ∃ rest, Text.afterTrivia A = '(' :: rest := by
    unfold parameterGroup? at h
    split at h
    · next rest hrest => exact ⟨rest, hrest⟩
    · cases h
  obtain ⟨rest, hrest⟩ := hopen
  have hclose : ')' ∈ rest := by
    rw [parameterGroup?_of_afterTrivia hrest] at h
    simpa using h
  obtain ⟨s, rest', hs, rfl, heq | ⟨hnil, -⟩⟩ := Text.exists_trivia A
  · obtain rfl : '(' :: rest = rest' := hrest.symm.trans heq
    have hrest' : Text.afterTrivia (s ++ '(' :: rest ++ x) = '(' :: (rest ++ x) := by
      rw [List.append_assoc, hs.afterTrivia_append]
      exact Text.afterTrivia_cons rfl fun hslash => absurd hslash (by decide)
    rw [parameterGroup?_of_afterTrivia hrest, parameterGroup?_of_afterTrivia hrest',
      takeWhile_of_mem hclose rfl]
    simp [hclose]
  · cases hnil.symm.trans hrest

/-- **A comment outside the parameters of the wrapper does not matter for the wrapper.** -/
theorem isSelfRegistering_blank {r : List Char} (h : Piece ⟨.comment, comment⟩ r)
    (hA : Text.Trivia A ∨ (parameterGroup? A).isSome = true) (marker : String) :
    isSelfRegistering (A ++ ' ' :: r) marker = isSelfRegistering (A ++ (comment ++ r)) marker := by
  have hgroup : parameterGroup? (A ++ ' ' :: r) = parameterGroup? (A ++ (comment ++ r)) := by
    rcases hA with hA | hA
    · have hblank : Text.afterTrivia (A ++ ' ' :: r) = Text.afterTrivia r := by
        rw [hA.afterTrivia_append, Text.afterTrivia_blank rfl]
      rcases h.afterTrivia_comment with heq | ⟨rfl, body, rfl, hself⟩
      · have hcomment : Text.afterTrivia (A ++ (comment ++ r)) = Text.afterTrivia r := by
          rw [hA.afterTrivia_append, heq]
        rw [parameterGroup?, parameterGroup?, hblank, hcomment]
      · -- a comment without an end is all that is left
        rw [parameterGroup?, parameterGroup?, hblank, hA.afterTrivia_append, List.append_nil, hself,
          Text.afterTrivia_nil]
        rfl
    · rw [parameterGroup?_append hA, parameterGroup?_append hA]
  rw [isSelfRegistering, isSelfRegistering, hgroup]

end Script

/-! ### What a script says -/

namespace Finding

/-- A finding without the wording of a diagnostic. -/
def unworded : Finding → Finding
  | .diagnostic _ => .diagnostic ""
  | finding => finding

@[simp] theorem dependency?_unworded (kind : DependencyKind) (finding : Finding) :
    finding.unworded.dependency? kind = finding.dependency? kind := by
  cases finding <;> rfl

@[simp] theorem reason?_unworded (finding : Finding) : finding.unworded.reason? = finding.reason? := by
  cases finding <;> rfl

@[simp] theorem isSome_diagnostic?_unworded (finding : Finding) :
    finding.unworded.diagnostic?.isSome = finding.diagnostic?.isSome := by
  cases finding <;> rfl

/-- What is found in a declaration that says something, in a call without its closing parenthesis, and in a
literal that cannot be read. -/
def ofReading (c : Convention) (kind : DependencyKind) : Option (Option Value) → List Finding
  | some (some v) => v.leaves.map fun leaf => (ofLeaf c kind leaf).unworded
  | some none => []
  | none => [.diagnostic ""]

theorem map_unworded_ofDeclaration (c : Convention) (source : List Char) (kind : DependencyKind)
    (d : Declaration) :
    (ofDeclaration c source kind d).map unworded = ofReading c kind d.read.toOption := by
  unfold ofDeclaration
  rcases d.read with s | _ | v
  · rfl
  · rfl
  · exact List.map_map

theorem map_unworded_congr
    (hself : Script.isSelfRegistering source' c.marker = Script.isSelfRegistering source c.marker)
    (h : ∀ kind : DependencyKind,
      (Script.declarations (kind.method c).toList source').map (fun d => d.read.toOption) =
        (Script.declarations (kind.method c).toList source).map fun d => d.read.toOption) :
    (ofSource c source').map unworded = (ofSource c source).map unworded := by
  have hread : ∀ (source : List Char) (kind : DependencyKind),
      ((Script.declarations (kind.method c).toList source).flatMap (ofDeclaration c source kind)).map unworded
        = ((Script.declarations (kind.method c).toList source).map fun d => d.read.toOption).flatMap
            (ofReading c kind) := by
    intro source kind
    rw [List.map_flatMap, List.flatMap_map]
    simp only [map_unworded_ofDeclaration]
  unfold ofSource
  rw [hself]
  cases Script.isSelfRegistering source c.marker with
  | false => rw [if_neg Bool.false_ne_true, if_neg Bool.false_ne_true]
  | true => simp only [if_true, List.map_flatMap, hread, h]

end Finding

namespace Manifest

/-- The dependencies of a script and the number of its diagnostics. -/
def summary (m : Manifest) : Dependencies ModuleId × Nat := (m.dependencies, m.diagnostics.length)

/-- The wording of its diagnostics does not matter for the dependencies of a script. -/
theorem summary_foldlM_add {findings findings' : List Finding} (m : Manifest)
    (h : findings'.map Finding.unworded = findings.map Finding.unworded) :
    (findings'.foldlM add m).map summary = (findings.foldlM add m).map summary := by
  have hreason : ∀ findings : List Finding,
      (findings.map Finding.unworded).findSome? Finding.reason? = findings.findSome? Finding.reason? := by
    intro findings
    simp [List.findSome?_map, Function.comp_def]
  have hdependency : ∀ (kind : DependencyKind) (findings : List Finding),
      (findings.map Finding.unworded).filterMap (Finding.dependency? kind)
        = findings.filterMap (Finding.dependency? kind) := by
    intro kind findings
    simp [List.filterMap_map]
  have hdiagnostic : ∀ findings : List Finding,
      ((findings.map Finding.unworded).filterMap Finding.diagnostic?).length
        = (findings.filterMap Finding.diagnostic?).length := by
    intro findings
    simp [List.length_filterMap_eq_countP]
  rw [foldlM_add, foldlM_add, ← hreason findings', h, hreason]
  cases findings.findSome? Finding.reason? with
  | some reason => rfl
  | none =>
    refine congrArg Except.ok ?_
    simp only [summary, holding, List.length_append]
    rw [← hdiagnostic findings', ← hdependency .compile findings', ← hdependency .launch findings',
      ← hdependency .optional findings', h, hdiagnostic, hdependency, hdependency, hdependency]

/-- What a script says depends on its wrapper and on the values of its declarations only. -/
theorem summary_congr
    (hself : Script.isSelfRegistering source' c.marker = Script.isSelfRegistering source c.marker)
    (h : ∀ kind : DependencyKind,
      (Script.declarations (kind.method c).toList source').map (fun d => d.read.toOption) =
        (Script.declarations (kind.method c).toList source).map fun d => d.read.toOption) :
    (ofSource c source').map summary = (ofSource c source).map summary := by
  rw [ofSource_eq, ofSource_eq, hself]
  exact summary_foldlM_add _ (Finding.map_unworded_congr hself h)

end Manifest

/-! ### A blank in the place of a comment -/

namespace Script

variable {name : List Char}

/-- With a blank in the place of a comment the other pieces stay the same. -/
theorem segments_blank (h : segments source = front ++ ⟨.comment, comment⟩ :: back) :
    segments (textOf front ++ ' ' :: textOf back) = front ++ ⟨.code, [' ']⟩ :: back := by
  obtain ⟨hpiece, hback⟩ := piece_of_segments h
  obtain ⟨cs, hcs⟩ := hpiece.exists_comment
  have htail : segments source = front ++ segments (comment ++ textOf back) := by
    rw [h, hpiece.segments_append, hback]
  have hhead : (' ' :: textOf back).head? = some ' ' := rfl
  obtain ⟨l, hl, -, hblank⟩ := exists_samePieces (by rw [hcs]; rfl) hhead htail
  obtain rfl : l = textOf front := by
    have hsource := textOf_segments source
    rw [h, textOf_append, textOf_cons, hl] at hsource
    exact (List.append_cancel_right hsource).symm
  rw [hblank, segments_code (by decide) (fun hslash => absurd hslash (by decide)), hback]

/-- A text that is cut into the last pieces of a script is cut in the same way with a blank in the place of a
comment. -/
theorem samePieces_of_suffix {l tail tail' : List Char} (hslash : tail.head? = some '/')
    (hblank : tail'.head? = some ' ') (h : segments source = front ++ segments tail)
    (hl : segments (l ++ tail) <:+ segments source) : SamePieces tail tail' (l ++ tail) (l ++ tail') := by
  obtain ⟨pre, hpre⟩ := hl
  rcases List.append_eq_append_iff.1 (hpre.trans h) with ⟨segs, -, hsegs⟩ | ⟨segs, -, hsegs⟩
  · obtain ⟨l', hl', hsame, -⟩ := exists_samePieces hslash hblank hsegs
    obtain rfl := List.append_cancel_right hl'
    exact hsame
  · -- the text is no longer than what stands behind `l`
    have htext := congrArg (fun segs => (textOf segs).length) hsegs
    simp only [textOf_append, textOf_segments, List.length_append] at htext
    obtain rfl : l = [] := List.eq_nil_of_length_eq_zero (by omega)
    exact .split

/-- The declarations of a script say the same with a blank in the place of a comment that stands in no gap. -/
theorem map_read_blank (hname : IsUnbroken name)
    (h : segments source = front ++ ⟨.comment, comment⟩ :: back)
    (hliterals : ∀ d ∈ declarations name source, comment ++ textOf back <:+ d.literal →
      d.EndsBefore (comment ++ textOf back) ∨ segments d.literal <:+ segments source)
    (hgaps : ∀ p ∈ places name source, ∀ gap ∈ gaps name p, Text.trimLeft gap ≠ comment ++ textOf back) :
    (declarations name (textOf front ++ ' ' :: textOf back)).map (fun d => d.read.toOption) =
      (declarations name source).map fun d => d.read.toOption := by
  obtain ⟨hpiece, hback⟩ := piece_of_segments h
  obtain ⟨cs, hcs⟩ := hpiece.exists_comment
  have hslash : (comment ++ textOf back).head? = some '/' := by rw [hcs]; rfl
  have htail : segments source = front ++ segments (comment ++ textOf back) := by
    rw [h, hpiece.segments_append, hback]
  have hplaces := places_eq hname h (.inr (by rw [hslash]; rintro c ⟨⟩; rfl)) hpiece.apart_comment
    (unflagged_comment hname comment)
  have hplaces' := places_eq hname (segments_blank h) (.inr (by rintro c ⟨⟩; rfl))
    (.inl (by rintro c ⟨⟩; rfl)) (by rw [occurrences_blank hname]; rfl)
  rw [declarations_eq, declarations_eq, List.map_filterMap, List.map_filterMap, hplaces, hplaces',
    List.filterMap_append, List.filterMap_append, List.filterMap_map, List.filterMap_map,
    List.filterMap_map, List.filterMap_map]
  congr 1
  · refine List.filterMap_congr fun p hp => ?_
    have hprefix : name <+: p.rest := prefix_of_mem_occurrences (List.mem_filter.1 hp).1
    have hmem : p.extend (comment ++ textOf back) ∈ places name source := by
      rw [hplaces]
      exact List.mem_append_left _ (List.mem_map_of_mem hp)
    refine readAt_extend_eq (interchangeable_blank hpiece) hslash rfl hprefix (hgaps _ hmem) fun d hd => ?_
    have hdeclared : d.extend (comment ++ textOf back) ∈ declarations name source := by
      refine List.mem_filterMap.2 ⟨_, hmem, ?_⟩
      rw [declarationAt?_extend_of_gaps hslash hprefix (hgaps _ hmem) (.inl hslash), hd]
      rfl
    exact (hliterals _ hdeclared ⟨d.literal, rfl⟩).imp_right (samePieces_of_suffix hslash rfl htail)
  · refine List.filterMap_congr fun p hp => ?_
    have hstands := (List.mem_filter.1 hp).1
    show (declarationAt? name (p.behind (' ' :: (textOf front).reverse))).map _ =
      (declarationAt? name (p.behind (comment.reverse ++ (textOf front).reverse))).map _
    rw [declarationAt?_behind (by decide), declarationAt?_behind_comment hname hpiece hstands]

end Script

namespace Manifest

/-- **A comment in one of the gaps of a declaration leaves it out without a diagnostic, and a comment that
stands in no gap is the same as a blank.**  The dependencies of a script and the number of its diagnostics do
not change if the comment is exchanged for a blank.  For this the comment has to stand outside the parameters of
the wrapper, and a literal in which it stands has to be made of whole pieces, so that it does not start within
a quotation. -/
theorem ofSource_blank (hnames : ∀ kind : DependencyKind, Script.IsUnbroken (kind.method c).toList)
    (h : Script.segments source = front ++ ⟨.comment, comment⟩ :: back)
    (hwrapper : Text.Trivia (Script.textOf front) ∨
      (Script.parameterGroup? (Script.textOf front)).isSome = true)
    (hliterals : ∀ kind : DependencyKind, ∀ d ∈ Script.declarations (kind.method c).toList source,
      comment ++ Script.textOf back <:+ d.literal →
        d.EndsBefore (comment ++ Script.textOf back) ∨
          Script.segments d.literal <:+ Script.segments source) :
    (∀ kind : DependencyKind, ∀ p ∈ Script.places (kind.method c).toList source,
      (∃ gap ∈ Script.gaps (kind.method c).toList p, Text.trimLeft gap = comment ++ Script.textOf back) →
        ∀ d, Script.declarationAt? (kind.method c).toList p = some d → d.read = .ok none) ∧
    ((∀ kind : DependencyKind, ∀ p ∈ Script.places (kind.method c).toList source,
      ∀ gap ∈ Script.gaps (kind.method c).toList p, Text.trimLeft gap ≠ comment ++ Script.textOf back) →
        (ofSource c (Script.textOf front ++ ' ' :: Script.textOf back)).map summary =
          (ofSource c source).map summary) := by
  obtain ⟨hpiece, -⟩ := Script.piece_of_segments h
  obtain ⟨cs, hcs⟩ := hpiece.exists_comment
  refine ⟨fun kind p _ hgap d hd => ?_, fun hgaps => summary_congr ?_ fun kind => ?_⟩
  · exact Script.read_eq_none_of_mem_gaps (by rw [hcs]; rfl) hgap hd
  · have hsource : source = Script.textOf front ++ (comment ++ Script.textOf back) := by
      rw [← Script.textOf_segments source, h, Script.textOf_append, Script.textOf_cons]
    rw [hsource]
    exact Script.isSelfRegistering_blank hpiece hwrapper c.marker
  · exact Script.map_read_blank (hnames kind) h (hliterals kind) (hgaps kind)

/-- A script with a comment in a literal. -/
theorem ofSource_commentInLiteral :
    (ofSource briefly "((a,S)=>o([/*c*/1]))()".toList).toOption.map summary
      = some ({ optional := [⟨".", 1⟩] }, 0) ∧
    (ofSource briefly "((a,S)=>o([ 1]))()".toList).map summary =
      (ofSource briefly "((a,S)=>o([/*c*/1]))()".toList).map summary := by
  have hnames : ∀ kind : DependencyKind, Script.IsUnbroken (kind.method briefly).toList := by
    intro kind
    cases kind <;> decide
  have h : Script.segments "((a,S)=>o([/*c*/1]))()".toList =
      Script.segments "((a,S)=>o([".toList ++
        ⟨.comment, "/*c*/".toList⟩ :: Script.segments "1]))()".toList := by
    decide +kernel
  have hwrapper : (Script.parameterGroup? (Script.textOf (Script.segments "((a,S)=>o([".toList))).isSome
      = true := by
    decide +kernel
  have hwhole : ∀ kind : DependencyKind,
      ∀ d ∈ Script.declarations (kind.method briefly).toList "((a,S)=>o([/*c*/1]))()".toList,
        Script.segments d.literal <:+ Script.segments "((a,S)=>o([/*c*/1]))()".toList := by
    intro kind
    cases kind <;> decide +kernel
  have hgaps : ∀ kind : DependencyKind,
      ∀ p ∈ Script.places (kind.method briefly).toList "((a,S)=>o([/*c*/1]))()".toList,
        ∀ gap ∈ Script.gaps (kind.method briefly).toList p,
          Text.trimLeft gap ≠ "/*c*/".toList ++ Script.textOf (Script.segments "1]))()".toList) := by
    intro kind
    cases kind <;> decide +kernel
  have hblank := (ofSource_blank hnames h (.inr hwrapper) fun kind d hd _ => .inr (hwhole kind d hd)).2 hgaps
  rw [Script.textOf_segments, Script.textOf_segments] at hblank
  exact ⟨by decide +kernel, hblank⟩

/-- A comment between the name of a method and its parenthesis leaves out the declaration. -/
theorem ofSource_commentInGap :
    Script.isSelfRegistering "((a,Script)=>setOptionalDependencies/*c*/([1]))();".toList "Script" = true ∧
    Script.segments "((a,Script)=>setOptionalDependencies/*c*/([1]))();".toList =
      Script.segments "((a,Script)=>setOptionalDependencies".toList ++
        ⟨.comment, "/*c*/".toList⟩ :: Script.segments "([1]))();".toList ∧
    (ofSource {} "((a,Script)=>setOptionalDependencies/*c*/([1]))();".toList).toOption.map summary
      = some ({}, 0) ∧
    (ofSource {} "((a,Script)=>setOptionalDependencies ([1]))();".toList).toOption.map summary
      = some ({ optional := [⟨".", 1⟩] }, 0) := by
  refine ⟨?_, ?_, ?_, ?_⟩ <;> decide +kernel

end Manifest

end ScriptBundle
