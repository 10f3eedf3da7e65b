/-!
# Places in texts, and cuts

A place in a text is given by the rest of the text that follows it: a suffix of the list of
characters.  Only when a place is shown to the outside does it become a number, the count of
UTF-8 bytes in front of it.  So every place that a reader can name is a character boundary.

A program that keeps its place in a text as a number of bytes has to cut the text there.  That goes
wrong if the number lies behind the end of the text or inside one of its characters.  Then the
program gives up.  A computation of this library ends with a result, with an error of its own domain,
or it is abandoned: errors are answers, and an abandoned computation has none.

## Main definitions

* `Abandonment`: the reasons for giving up.
* `Failure ε`: an error of the kind `ε`, or giving up.
* `byteCount cs`: the number of UTF-8 bytes of a text.
* `offsetOf whole rest`: where the suffix `rest` starts in `whole`.
* `dropBytes?`, `takeBytes?`: the two sides of a cut, if there can be one.
* `sliceBytes?`: what stands between two byte positions.
* `findBytes?`: the byte position at which a pattern first stands.

## Main results

* `offsetOf_append`: the offset of a suffix is the byte count of what stands before it.
* `dropBytes?_eq_some_iff`, `takeBytes?_eq_some_iff`: a text can be cut just between its characters.
* `offsetOf_add`: a cursor that moves by the size of a part stands behind it.
* `sliceBytes?_offsetOf`: the slice between the ends of a part is that part.
-/

namespace ScriptBundle

/-- A reason for giving up. -/
inductive Abandonment where
  /-- The text would have to be cut inside one of its characters. -/
  | cutInsideCharacter (text : String)
  /-- The walk that finds weights goes round for ever. -/
  | endlessWalk
  /-- More surveys are needed than are allowed. -/
  | tooManySurveys
  deriving DecidableEq, Repr

/-- An error of the kind `ε`, or giving up. -/
inductive Failure (ε : Type) where
  | error (cause : ε)
  | abandoned (reason : Abandonment)
  deriving DecidableEq, Repr

/-! ### Byte offsets -/

namespace Text

/-- The number of UTF-8 bytes of a text. -/
def byteCount : List Char → Nat
  | [] => 0
  | c :: cs => c.utf8Size + byteCount cs

/-- The byte offset at which the suffix `rest` of `whole` starts. -/
def offsetOf (whole rest : List Char) : Nat := byteCount whole - byteCount rest

@[simp] theorem byteCount_nil : byteCount [] = 0 := rfl

@[simp] theorem byteCount_cons (c : Char) (cs : List Char) :
    byteCount (c :: cs) = c.utf8Size + byteCount cs := rfl

@[simp] theorem byteCount_append (as bs : List Char) :
    byteCount (as ++ bs) = byteCount as + byteCount bs := by
  induction as with
  | nil => simp
  | cons a as ih => simp [ih, Nat.add_assoc]

theorem offsetOf_append (before rest : List Char) :
    offsetOf (before ++ rest) rest = byteCount before := by
  simp [offsetOf]

/-! ### Cuts -/

/-- The text without its first `n` bytes, if no character is cut. -/
def dropBytes? : List Char → Nat → Option (List Char)
  | cs, 0 => some cs
  | [], _ + 1 => none
  | c :: cs, n + 1 => if c.utf8Size ≤ n + 1 then dropBytes? cs (n + 1 - c.utf8Size) else none

/-- The first `n` bytes of a text, if no character is cut. -/
def takeBytes? : List Char → Nat → Option (List Char)
  | _, 0 => some []
  | [], _ + 1 => none
  | c :: cs, n + 1 =>
    if c.utf8Size ≤ n + 1 then (takeBytes? cs (n + 1 - c.utf8Size)).map (c :: ·) else none

/-- What stands between two byte positions of a text, if they are in order and cut no character. -/
def sliceBytes? (cs : List Char) (start stop : Nat) : Option (List Char) :=
  if start ≤ stop then (dropBytes? cs start).bind fun rest => takeBytes? rest (stop - start) else none

/-- The byte position at which a pattern first stands in a text. -/
def findBytes? (pattern : List Char) : List Char → Option Nat
  | [] => if pattern = [] then some 0 else none
  | c :: cs => if pattern <+: c :: cs then some 0 else (findBytes? pattern cs).map (c.utf8Size + ·)

/-! ### Where a text can be cut -/

theorem dropBytes?_cons (c : Char) (cs : List Char) (n : Nat) :
    dropBytes? (c :: cs) (c.utf8Size + n) = dropBytes? cs n := by
  obtain ⟨k, hk⟩ := Nat.exists_eq_succ_of_ne_zero (Nat.ne_of_gt c.utf8Size_pos)
  have hsum : c.utf8Size + n = (k + n) + 1 := by omega
  rw [hsum, dropBytes?, if_pos (by omega), ← hsum, Nat.add_sub_cancel_left]

theorem takeBytes?_cons (c : Char) (cs : List Char) (n : Nat) :
    takeBytes? (c :: cs) (c.utf8Size + n) = (takeBytes? cs n).map (c :: ·) := by
  obtain ⟨k, hk⟩ := Nat.exists_eq_succ_of_ne_zero (Nat.ne_of_gt c.utf8Size_pos)
  have hsum : c.utf8Size + n = (k + n) + 1 := by omega
  rw [hsum, takeBytes?, if_pos (by omega), ← hsum, Nat.add_sub_cancel_left]

theorem dropBytes?_append (before rest : List Char) :
    dropBytes? (before ++ rest) (byteCount before) = some rest := by
  induction before with
  | nil => cases rest <;> rfl
  | cons c before ih => rw [List.cons_append, byteCount_cons, dropBytes?_cons, ih]

theorem takeBytes?_append (before rest : List Char) :
    takeBytes? (before ++ rest) (byteCount before) = some before := by
  induction before with
  | nil => cases rest <;> rfl
  | cons c before ih => rw [List.cons_append, byteCount_cons, takeBytes?_cons, ih, Option.map_some]

/-- A text can be cut just between two of its characters or at its ends. -/
theorem dropBytes?_eq_some_iff {cs rest : List Char} {n : Nat} :
    dropBytes? cs n = some rest ↔ ∃ before, cs = before ++ rest ∧ byteCount before = n := by
  constructor
  · intro h
    fun_induction dropBytes? cs n with
    | case1 cs => exact ⟨[], Option.some.inj h, rfl⟩
    | case2 => cases h
    | case3 c cs n hsize ih =>
      obtain ⟨before, rfl, hn⟩ := ih h
      exact ⟨c :: before, rfl, by rw [byteCount_cons]; omega⟩
    | case4 => cases h
  · rintro ⟨before, rfl, rfl⟩
    exact dropBytes?_append before rest

/-- What stands in front of such a cut. -/
theorem takeBytes?_eq_some_iff {cs before : List Char} {n : Nat} :
    takeBytes? cs n = some before ↔ ∃ rest, cs = before ++ rest ∧ byteCount before = n := by
  constructor
  · intro h
    fun_induction takeBytes? cs n generalizing before with
    | case1 cs =>
      obtain rfl := Option.some.inj h
      exact ⟨cs, rfl, rfl⟩
    | case2 => cases h
    | case3 c cs n hsize ih =>
      obtain ⟨tail, htail, rfl⟩ := Option.map_eq_some_iff.1 h
      obtain ⟨rest, rfl, hn⟩ := ih htail
      exact ⟨rest, rfl, by rw [byteCount_cons]; omega⟩
    | case4 => cases h
  · rintro ⟨rest, rfl, rfl⟩
    exact takeBytes?_append before rest

/-! ### Cutting where a suffix starts -/

variable {text cs before rest : List Char} {c : Char}

theorem dropBytes?_offsetOf (h : cs <:+ text) : dropBytes? text (offsetOf text cs) = some cs := by
  obtain ⟨front, rfl⟩ := h
  rw [offsetOf_append, dropBytes?_append]

/-- Behind a part of the text stands the cursor that was moved by its size. -/
theorem offsetOf_add (before : List Char) (h : before ++ rest <:+ text) :
    offsetOf text (before ++ rest) + byteCount before = offsetOf text rest := by
  obtain ⟨front, rfl⟩ := h
  rw [offsetOf_append, ← List.append_assoc, offsetOf_append, byteCount_append]

theorem offsetOf_cons (h : c :: cs <:+ text) : offsetOf text (c :: cs) + c.utf8Size = offsetOf text cs :=
  offsetOf_add [c] h

theorem sliceBytes?_offsetOf_add (h : cs <:+ text) (n : Nat) :
    sliceBytes? text (offsetOf text cs) (offsetOf text cs + n) = takeBytes? cs n := by
  rw [sliceBytes?, if_pos (Nat.le_add_right _ _), dropBytes?_offsetOf h, Option.bind_some, Nat.add_sub_cancel_left]

/-- The slice between the ends of a part is that part. -/
theorem sliceBytes?_offsetOf (h : before ++ rest <:+ text) :
    sliceBytes? text (offsetOf text (before ++ rest)) (offsetOf text rest) = some before := by
  rw [← offsetOf_add before h, sliceBytes?_offsetOf_add h, takeBytes?_append]

end Text

end ScriptBundle
