import ScriptBundle.Text.Slice

/-!
# Character boundaries

A byte position is a character boundary of a text if a suffix of the text starts there.

## Main definitions

* `IsBoundary`: a character boundary of a text, not behind its end.

## Main results

* `isBoundary_iff`: the boundaries are the offsets of the suffixes.
* `isBoundary_iff_isSome`: the boundaries are the places where the text can be cut.
* `offsetOf_lt`: a shorter suffix starts at a later boundary.
-/

namespace ScriptBundle.Text

variable {text cs rest : List Char}

theorem utf8ByteSize_ofList (cs : List Char) : (String.ofList cs).utf8ByteSize = byteCount cs := by
  induction cs with
  | nil => rfl
  | cons c cs ih =>
    have happend : String.ofList (c :: cs) = String.ofList [c] ++ String.ofList cs := by
      rw [← String.ofList_append]
      rfl
    have hsize : (String.ofList [c]).utf8ByteSize = c.utf8Size := by
      rw [← String.singleton_eq_ofList, String.utf8ByteSize_singleton]
    rw [happend, String.utf8ByteSize_append, hsize, ih, byteCount_cons]

/-- A byte position at which a text can be cut: it is not behind the end and inside no character. -/
def IsBoundary (text : String) (pos : Nat) : Prop := String.Pos.Raw.IsValid text ⟨pos⟩

/-- A boundary is where a suffix of the text starts. -/
theorem isBoundary_iff {text : String} {pos : Nat} :
    IsBoundary text pos ↔ ∃ rest, rest <:+ text.toList ∧ pos = offsetOf text.toList rest := by
  rw [IsBoundary, String.Pos.Raw.isValid_iff_exists_append]
  constructor
  · rintro ⟨before, rest, rfl, hpos⟩
    refine ⟨rest.toList, ⟨before.toList, by rw [String.toList_append]⟩, ?_⟩
    rw [String.toList_append, offsetOf_append, ← utf8ByteSize_ofList, String.ofList_toList]
    exact congrArg String.Pos.Raw.byteIdx hpos
  · rintro ⟨rest, ⟨before, hbefore⟩, rfl⟩
    refine ⟨String.ofList before, String.ofList rest, ?_, ?_⟩
    · rw [← String.ofList_append, hbefore, String.ofList_toList]
    · rw [← hbefore, offsetOf_append, ← utf8ByteSize_ofList]
      rfl

/-- The boundaries are the places where the text can be cut. -/
theorem isBoundary_iff_isSome {text : String} {pos : Nat} :
    IsBoundary text pos ↔ (dropBytes? text.toList pos).isSome = true := by
  rw [isBoundary_iff, Option.isSome_iff_exists]
  constructor
  · rintro ⟨rest, hrest, rfl⟩
    exact ⟨rest, dropBytes?_offsetOf hrest⟩
  · rintro ⟨rest, hrest⟩
    obtain ⟨before, hbefore, rfl⟩ := dropBytes?_eq_some_iff.1 hrest
    exact ⟨rest, ⟨before, hbefore.symm⟩, by rw [hbefore, offsetOf_append]⟩

instance (text : String) (pos : Nat) : Decidable (IsBoundary text pos) :=
  decidable_of_iff _ isBoundary_iff_isSome.symm

theorem offsetOf_le (h : rest <:+ cs) : offsetOf text cs ≤ offsetOf text rest := by
  obtain ⟨before, rfl⟩ := h
  rw [offsetOf, offsetOf, byteCount_append]
  omega

/-- A shorter suffix starts later. -/
theorem offsetOf_lt (hcs : cs <:+ text) (h : rest <:+ cs) (hlt : rest.length < cs.length) :
    offsetOf text cs < offsetOf text rest := by
  obtain ⟨front, rfl⟩ := hcs
  obtain ⟨before, rfl⟩ := h
  have hbefore : 0 < byteCount before := by
    cases before with
    | nil => exact absurd hlt (Nat.lt_irrefl _)
    | cons c before =>
      have := c.utf8Size_pos
      rw [byteCount_cons]
      omega
  rw [offsetOf, offsetOf, byteCount_append, byteCount_append]
  omega

end ScriptBundle.Text
