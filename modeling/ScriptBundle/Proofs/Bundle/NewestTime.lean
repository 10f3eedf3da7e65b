import Mathlib.Data.Fintype.Card
import ScriptBundle.Proofs.Bundle.EmittedText

/-!
# The time of a bundle

A bundle is as new as the newest of its files, but never older than the start of 1970.

## Main definitions

* `ModuleSet.BundledTime`: the times of the files in a bundle.

## Main results

* `Timestamp.foldl_later`: the latest of some times and a first one.
* `newest_of_emit`: **no file of a bundle is newer than the bundle.  The bundle is as new as one of its files
  iff one of them is not older than the start of 1970; otherwise its time is that start.**
-/

namespace ScriptBundle

open BundleAccess

namespace Timestamp

/-- A time is not later than another one. -/
instance : LE Timestamp := ⟨fun a b => (compare a b).isLE = true⟩

variable {a b c : Timestamp}

theorem le_iff : a ≤ b ↔ a.seconds < b.seconds ∨ a.seconds = b.seconds ∧ a.nanos ≤ b.nanos := by
  show ((compare a.seconds b.seconds).then (compare a.nanos b.nanos)).isLE = true ↔ _
  rw [Ordering.isLE_then_iff_or, Int.compare_eq_lt, Int.compare_eq_eq, Nat.isLE_compare]

instance : DecidableLE Timestamp := fun a b => inferInstanceAs (Decidable ((compare a b).isLE = true))

protected theorem le_refl (a : Timestamp) : a ≤ a := le_iff.2 (.inr ⟨rfl, Nat.le_refl _⟩)

protected theorem le_trans (h : a ≤ b) (h' : b ≤ c) : a ≤ c := by
  rw [le_iff] at *
  omega

protected theorem le_antisymm (h : a ≤ b) (h' : b ≤ a) : a = b := by
  rw [le_iff] at *
  obtain ⟨hseconds, hnanos⟩ : a.seconds = b.seconds ∧ a.nanos = b.nanos := by omega
  cases a
  cases b
  simp_all

theorem le_later_left (a b : Timestamp) : a ≤ later a b := by
  unfold later
  split
  · next h => exact h
  · exact Timestamp.le_refl a

theorem le_later_right (a b : Timestamp) : b ≤ later a b := by
  unfold later
  split
  · exact Timestamp.le_refl b
  · next h =>
    have h : ¬ a ≤ b := h
    rw [le_iff] at *
    omega

/-- The latest of some times and a first one. -/
theorem foldl_later (times : List Timestamp) (start : Timestamp) :
    start ≤ times.foldl later start ∧ (∀ t ∈ times, t ≤ times.foldl later start) ∧
      (times.foldl later start = start ∨ times.foldl later start ∈ times) := by
  -- the latest time so far is where the other ones start from
  induction times generalizing start with
  | nil => exact ⟨Timestamp.le_refl _, by simp, .inl rfl⟩
  | cons t times ih =>
    obtain ⟨hstart, htimes, hattained⟩ := ih (later start t)
    rw [List.foldl_cons]
    refine ⟨Timestamp.le_trans (le_later_left start t) hstart, ?_, ?_⟩
    · intro t' ht'
      rcases List.mem_cons.1 ht' with rfl | ht'
      · exact Timestamp.le_trans (le_later_right start t') hstart
      · exact htimes t' ht'
    · rcases hattained with heq | hmem
      · rw [heq]
        rcases later_eq_or start t with h | h
        · exact .inl h
        · exact .inr (by simp [h])
      · exact .inr (List.mem_cons_of_mem t hmem)

end Timestamp

namespace ModuleSet

variable {c : Convention} {fs : FileSystem} {s : ModuleSet} {order : List (Fin s.size)} {b : Bundle}
  {loader : Option Loader} {t : Timestamp}

/-- The times at which the files in a bundle were modified: the modules that it holds, and the loader script if
it stands in front of them. -/
inductive BundledTime (fs : FileSystem) (s : ModuleSet) (order : List (Fin s.size)) (b : Bundle) :
    Timestamp → Prop where
  | module {u : Fin s.size} (hu : u ∈ s.sequence order) : BundledTime fs s order b (s.modules.get u).modified
  | loader {path : Path} {t : Timestamp} (hpath : b.loader = some path) (ht : fs (.modified path) = .ok t) :
    BundledTime fs s order b t

/-- A bundle holds every module of its set, unless some module is named twice in the order. -/
theorem mem_sequence (h : order.Nodup) (u : Fin s.size) : u ∈ s.sequence order := by
  rw [sequence]
  split_ifs with hlength
  · have hcard : order.toFinset.card = Fintype.card (Fin s.size) := by
      rw [List.toFinset_card_of_nodup h, hlength, Fintype.card_fin]
    rw [← List.mem_toFinset, Finset.eq_univ_of_card _ hcard]
    exact Finset.mem_univ u
  · exact List.mem_finRange u

/-- The times that are compared are those of the files in the bundle. -/
theorem mem_times_iff (h : outcome fs (s.loader? c) = .ok loader) (hb : b.loader = loader.map Loader.path) :
    t ∈ s.times loader order ↔ s.BundledTime fs order b t := by
  -- the time that is kept with a loader script is the one that the file system tells
  have hmodified : ∀ l ∈ loader, fs (.modified l.path) = .ok l.modified := by
    intro l hl
    rcases loader?_cases h with ⟨rfl, -⟩ | ⟨-, content, source, modified, rfl, -, hmodified, -⟩
    · cases hl
    · obtain rfl := Option.some.inj hl
      exact hmodified
  rw [times, List.mem_append, Option.mem_toList, Option.map_eq_some_iff]
  constructor
  · rintro (⟨l, hl, rfl⟩ | hmem)
    · exact .loader (hb.trans (congrArg _ hl)) (hmodified l hl)
    · obtain ⟨u, hu, rfl⟩ := List.mem_map.1 hmem
      exact .module hu
  · rintro (hu | ⟨hpath, ht⟩)
    · exact .inr (List.mem_map_of_mem hu)
    · rw [hb] at hpath
      obtain ⟨l, hl, rfl⟩ := Option.map_eq_some_iff.1 hpath
      exact .inl ⟨l, hl, Except.ok.inj ((hmodified l hl).symm.trans ht)⟩

/-- **No file of a bundle is newer than the bundle.  The bundle is as new as one of its files iff one of them
is not older than the start of 1970; otherwise its time is that start.** -/
theorem newest_of_emit (h : outcome fs (s.emit c order) = .ok b) :
    (∀ t, s.BundledTime fs order b t → t ≤ b.newest) ∧
    (s.BundledTime fs order b b.newest ↔ ∃ t, s.BundledTime fs order b t ∧ .epoch ≤ t) ∧
    ((∀ t, s.BundledTime fs order b t → ¬ .epoch ≤ t) → b.newest = .epoch) ∧
    (order.Nodup → ∀ u, s.BundledTime fs order b (s.modules.get u).modified) := by
  rw [emit, outcome_bind, bind_eq_ok_iff] at h
  obtain ⟨loader, hloader, h⟩ := h
  obtain rfl := Except.ok.inj h
  obtain ⟨hstart, htimes, hattained⟩ := Timestamp.foldl_later (s.times loader order) .epoch
  refine ⟨fun t ht => htimes t ((mem_times_iff hloader rfl).2 ht), ⟨fun hnewest => ⟨_, hnewest, hstart⟩, ?_⟩,
    fun hold => ?_, fun hnodup u => .module (mem_sequence hnodup u)⟩
  · rintro ⟨t, ht, hepoch⟩
    have hmem := (mem_times_iff hloader rfl).2 ht
    refine (mem_times_iff hloader rfl).1 ?_
    rcases hattained with heq | hattained
    · -- then the file is from the start itself
      have hle := htimes t hmem
      rw [heq] at hle
      show (s.times loader order).foldl Timestamp.later .epoch ∈ s.times loader order
      rwa [heq, Timestamp.le_antisymm hepoch hle]
    · exact hattained
  · rcases hattained with heq | hmem
    · exact heq
    · exact absurd hstart (hold _ ((mem_times_iff hloader rfl).1 hmem))

end ModuleSet

/-! ### Old files -/

/-- An application with a loader script that is newer than it, and older than the utility. -/
def datedFiles : MemoryTree :=
  ((MemoryTree.write {} ⟨"js/0_app.js"⟩ ⟨"((a,Script)=>setLaunchDependencies([1]))();".toUTF8, ⟨-5, 0⟩⟩).write
    ⟨"js/1_util.js"⟩ ⟨"let util = 1;".toUTF8, ⟨50, 5⟩⟩).write
    ⟨"js/Loader.js"⟩ ⟨"(name => name)();".toUTF8, ⟨50, 4⟩⟩

/-- A utility from before 1970. -/
def oldFiles : MemoryTree := MemoryTree.write {} ⟨"js/1_util.js"⟩ ⟨"let util = 1;".toUTF8, ⟨-5, 0⟩⟩

theorem datedFiles_newest :
    ∃ (s : ModuleSet) (b : Bundle),
      outcome datedFiles.fileSystem (s.emit {} []) = .ok b ∧ b.newest = ⟨50, 5⟩ ∧
      s.BundledTime datedFiles.fileSystem [] b ⟨-5, 0⟩ ∧ s.BundledTime datedFiles.fileSystem [] b ⟨50, 4⟩ ∧
      s.BundledTime datedFiles.fileSystem [] b b.newest := by
  have hemit : (outcome datedFiles.fileSystem (ModuleSet.ofRequest {} (.file ⟨"js/0_app.js"⟩))).map
      (fun s => (outcome datedFiles.fileSystem (s.emit {} [])).map fun b =>
        (b.newest, b.loader, (s.sequence []).map fun u => (s.modules.get u).modified))
      = .ok (.ok (⟨50, 5⟩, some ⟨"js/Loader.js"⟩, [⟨-5, 0⟩, ⟨50, 5⟩])) := by
    decide +kernel
  obtain ⟨s, -, hs⟩ := map_eq_ok_iff.1 hemit
  obtain ⟨b, hb, heq⟩ := map_eq_ok_iff.1 hs
  obtain ⟨hnewest, hpair⟩ := Prod.mk.inj heq
  obtain ⟨hloader, htimes⟩ := Prod.mk.inj hpair
  obtain ⟨-, hattained, -, -⟩ := ModuleSet.newest_of_emit hb
  have htime : ∀ t ∈ [(⟨-5, 0⟩ : Timestamp), ⟨50, 5⟩], s.BundledTime datedFiles.fileSystem [] b t := by
    intro t ht
    rw [← htimes] at ht
    obtain ⟨u, hu, rfl⟩ := List.mem_map.1 ht
    exact .module hu
  exact ⟨s, b, hb, hnewest, htime ⟨-5, 0⟩ (by simp), .loader hloader (by decide +kernel),
    hattained.2 ⟨⟨50, 5⟩, htime _ (by simp), by decide⟩⟩

/-- It is not so that a bundle is always as new as one of its files: they may all be from before 1970. -/
theorem oldFiles_newest :
    ¬ ∀ (fs : FileSystem) (s : ModuleSet) (b : Bundle), 0 < s.size → outcome fs (s.emit {} []) = .ok b →
      s.BundledTime fs [] b b.newest := by
  intro h
  have hemit : (outcome oldFiles.fileSystem (ModuleSet.ofRequest {} (.file ⟨"js/1_util.js"⟩))).map
      (fun s => (s.size, (outcome oldFiles.fileSystem (s.emit {} [])).map fun b =>
        (b.newest, b.loader, (s.sequence []).map fun u => (s.modules.get u).modified)))
      = .ok (1, .ok (.epoch, none, [⟨-5, 0⟩])) := by
    decide +kernel
  obtain ⟨s, -, hs⟩ := map_eq_ok_iff.1 hemit
  obtain ⟨hsize, hs⟩ := Prod.mk.inj hs
  obtain ⟨b, hb, heq⟩ := map_eq_ok_iff.1 hs
  obtain ⟨hnewest, hpair⟩ := Prod.mk.inj heq
  obtain ⟨hloader, htimes⟩ := Prod.mk.inj hpair
  have hheld := h _ s b (hsize ▸ Nat.one_pos) hb
  rw [hnewest] at hheld
  generalize ht : Timestamp.epoch = t at hheld
  cases hheld with
  | @module u hu =>
    have hmem : (s.modules.get u).modified ∈ [(⟨-5, 0⟩ : Timestamp)] := by
      rw [← htimes]
      exact List.mem_map_of_mem hu
    rw [← ht] at hmem
    revert hmem
    decide
  | loader hpath _ => cases hloader.symm.trans hpath

end ScriptBundle
