import ScriptBundle.Proofs.FileSystem.Questions
import ScriptBundle.Proofs.Path.Components
import ScriptBundle.Proofs.Survey.Outcome
import ScriptBundle.Site

/-!
# Sites are confined to their roots

A request path and the ids in scripts are texts of any kind, and they become paths by being joined to the
root of a site.  Whatever they are, only files and directories below the root are asked about.  This
rests on three guards: request paths have no steps upwards and no slashes at their start, a category
with a root or a step upwards has no directory, and the files that are looked at in a directory have
names that start with a digit.

## Main definitions

* `BundleAccess.Confined`: a computation asks only about paths below a root.
* `Request.LiesBelow`: what a request asks for lies below a root.

## Main results

* `liesBelow_parse`: a request path stands for a request below the root.
* `confined_survey`, `confined_extend`: surveys of requests below a root are confined to it.
* `isBelow_of_asks_bundle`: **a bundle asks only about paths below the root of its site.**
-/

namespace ScriptBundle

/-- A computation asks only about paths below a root, and its result is of a given kind, on file systems
that list plain names. -/
def BundleAccess.Confined {α : Type} (root : Path) (Q : α → Prop) (x : BundleAccess α) : Prop :=
  BundleAccess.StaysIn PlainNames (fun q => root.IsBelow q.path) Q x

namespace Survey

open BundleAccess

variable {c : Convention} {known : ModuleKey → Bool} {root dir path : Path} {key : ModuleKey}
  {category : String} {number : Option Nat} {selection : Selection} {modules : ModuleMap}

/-! ### Surveys -/

theorem confined_manifest (source : String) : Confined root (fun _ => True) (manifest c source) := by
  unfold manifest
  cases Manifest.ofSource c source.toList with
  | ok m => exact staysIn_pure trivial
  | error reason => exact staysIn_throw _

theorem confined_load (h : root.IsBelow path) :
    Confined root (fun _ => True) (load c path key category number) := by
  refine staysIn_bind (staysIn_text? h h) fun text _ => ?_
  cases text with
  | none => exact staysIn_pure trivial
  | some text => exact staysIn_bind (confined_manifest text.1) fun m _ => staysIn_pure trivial

/-- An entry is looked at only if it is called like a module file. -/
theorem confined_addEntry (h : root.IsBelow dir) {name : String} (hslash : '/' ∉ name.toList) :
    Confined root (fun _ => True) (addEntry c known dir category selection modules name) := by
  unfold addEntry
  cases hnumber : moduleNumber? c.extension name with
  | none => exact staysIn_pure trivial
  | some n =>
    have hfile : root.IsBelow (dir.join ⟨name⟩) := by
      have hcomponents := Path.components_join_of_moduleNumber? dir hnumber hslash
      exact h.trans ⟨_, hcomponents, fun x hx => List.mem_singleton.1 hx ▸ rfl⟩
    dsimp only
    split
    · exact staysIn_pure trivial
    · refine staysIn_bind (staysIn_ask hfile) fun isFile _ => ?_
      split
      · exact staysIn_pure trivial
      · refine staysIn_bind (confined_load hfile) fun found _ => ?_
        cases found with
        | none => exact staysIn_pure trivial
        | some m => exact staysIn_pure trivial

/-- The directory of a category lies below the requested one. -/
theorem isBelow_categoryDirectory? {categoryDir : Path}
    (h : categoryDirectory? c dir category = some categoryDir) : dir.IsBelow categoryDir := by
  unfold categoryDirectory? at h
  dsimp only at h
  split_ifs at h with hdefault hinside
  · exact Option.some.inj h ▸ Path.IsBelow.refl dir
  · exact Option.some.inj h ▸ Path.IsBelow.join dir hinside

theorem confined_addCategory (h : root.IsBelow dir) (wanted : String × Selection) :
    Confined root (fun _ => True) (addCategory c known dir modules wanted) := by
  unfold addCategory
  dsimp only
  cases hdir : categoryDirectory? c dir (c.canonical wanted.1) with
  | none => exact staysIn_pure trivial
  | some categoryDir =>
    have hbelow : root.IsBelow categoryDir := h.trans (isBelow_categoryDirectory? hdir)
    refine staysIn_bind (staysIn_ask hbelow) fun isDirectory _ => ?_
    split
    · exact staysIn_pure trivial
    · refine staysIn_bind (staysIn_ask hbelow) fun answer hanswer => ?_
      refine staysIn_bind (staysIn_found? answer) fun names hnames => ?_
      cases names with
      | none => exact staysIn_pure trivial
      | some names =>
        -- the names are those that the file system lists, so that they hold no slashes
        rw [hnames names rfl] at hanswer
        exact staysIn_foldlM (fun _ name hname _ => confined_addEntry hbelow (hanswer name hname)) trivial

end Survey

/-! ### Requests -/

namespace Request

open ScriptBundle.Path

/-- What a request asks for lies below a root, and so does the directory of its dependencies. -/
structure LiesBelow (root : Path) (r : Request) : Prop where
  directory : root.IsBelow r.directory
  file : ∀ path, r = .file path → root.IsBelow path

variable {root : Path} {c : Convention} {text : String} {r : Request}

theorem LiesBelow.modules {dir : Path} (h : root.IsBelow dir) (name : Option String)
    (selections : List (String × Selection)) : LiesBelow root (.modules dir name selections) :=
  ⟨h, fun _ hfile => nomatch hfile⟩

/-- A path without slashes at its start and without steps upwards stays inside. -/
theorem isInside_relative {cs : List Char}
    (h : (Path.mk (String.ofList (cs.dropWhile (· == '/')))).components.contains .up = false) :
    (Path.mk (String.ofList (cs.dropWhile (· == '/')))).isInside = true := by
  have habsolute : isAbsolute ⟨String.ofList (cs.dropWhile (· == '/'))⟩ = false := by
    rw [isAbsolute, String.toList_ofList]
    cases hcs : cs.dropWhile (· == '/') with
    | nil => rfl
    | cons c rest =>
      have hhead : (c == '/') = false := by
        have := List.head_dropWhile_not (· == '/') (l := cs) (by simp [hcs])
        simpa [hcs] using this
      simpa using hhead
  refine isInside_of_not_isAbsolute habsolute fun hup => ?_
  rw [List.contains_iff_mem.2 hup] at h
  cases h

/-- **A request path stands for a request below the root.** -/
theorem liesBelow_parse (h : parse root c text = .ok r) : LiesBelow root r := by
  unfold parse at h
  dsimp only at h
  split_ifs at h with hup
  have hinside := isInside_relative (Bool.eq_false_iff.2 hup)
  split at h
  · cases h
  · next fileName hfile =>
    split at h
    · obtain rfl := Except.ok.inj h
      obtain ⟨d, hparent, hd⟩ := IsBelow.exists_parent_join root hinside hfile
      refine ⟨?_, fun path hpath => ?_⟩
      · rw [directory, hparent]
        exact hd
      · obtain rfl := Request.file.inj hpath
        exact IsBelow.join root hinside
    · obtain rfl := Except.ok.inj h
      obtain ⟨d, hparent, hcomponents⟩ := exists_parent hfile
      -- the path above the last component is not joined yet, so it has to be inside by itself
      have hd : d.isInside = true := isInside_iff.2 fun x hx =>
        isInside_iff.1 hinside x (by rw [hcomponents]; exact List.mem_append_left _ hx)
      rw [hparent]
      exact .modules (IsBelow.join root hd) _ _

end Request

namespace BundleAccess

variable {c : Convention} {known : ModuleKey → Bool} {root dir : Path} {request : Request}

theorem confined_modulesOf (h : request.LiesBelow root) :
    Confined root (fun _ => True) (Survey.modulesOf c known request) := by
  cases request with
  | modules dir name selections =>
    refine staysIn_foldlM (fun _ wanted _ _ => ?_) trivial
    exact Survey.confined_addCategory h.directory wanted
  | file path =>
    refine staysIn_bind (Survey.confined_load (h.file path rfl)) fun found _ => ?_
    cases found with
    | none => exact staysIn_pure trivial
    | some m => exact staysIn_pure trivial

/-- A survey of a request below a root is confined to it. -/
theorem confined_survey (h : request.LiesBelow root) :
    Confined root (fun _ => True) (survey c known request) :=
  staysIn_bind (confined_modulesOf h) fun _ _ => staysIn_pure trivial

/-- **The surveys for the ids that scripts declare are confined to the root as well.** -/
theorem confined_extend (hdir : root.IsBelow dir) (limit : Nat) (k : Closure)
    (h : request.LiesBelow root) :
    Confined root (fun _ => True) (Closure.extend c dir limit k request) := by
  -- all surveys but the first one are for ids, and they start in the same directory
  induction limit generalizing k request with
  | zero => exact staysIn_throw _
  | succ limit ih =>
    refine staysIn_bind (confined_survey h) fun found _ => ?_
    dsimp only
    cases (k.add found).pending with
    | nil => exact staysIn_pure trivial
    | cons id ids => exact ih _ (.modules hdir none _)

/-- The modules of a request lie in its directory. -/
theorem confined_ofRequest (h : request.LiesBelow root) (limit : Nat) :
    Confined root (fun s => s.dir = request.directory) (ModuleSet.ofRequest c request limit) := by
  refine staysIn_bind (confined_extend h.directory limit {} h) fun k _ => ?_
  split
  · exact staysIn_throw _
  · split
    · exact staysIn_pure rfl
    · exact staysIn_throw _

/-! ### Bundles -/

theorem confined_resolve (h : request.LiesBelow root) :
    Confined root (fun r => r.set.dir = request.directory) (Resolution.ofRequest c request) := by
  refine staysIn_bind (confined_ofRequest h surveyLimit) fun s hs => ?_
  cases hr : s.resolve with
  | error failure => exact staysIn_throw failure
  | ok r =>
    obtain ⟨w, -, rfl⟩ := map_eq_ok_iff.1 hr
    exact staysIn_pure hs

/-- The loader script is looked for in the directory of the request. -/
theorem confined_emit {s : ModuleSet} (hs : root.IsBelow s.dir)
    (hloader : (Path.mk c.loaderFile).isInside = true) (order : List (Fin s.size)) :
    Confined root (fun _ => True) (s.emit c order) := by
  have hfile : root.IsBelow (s.dir.join ⟨c.loaderFile⟩) := hs.trans (Path.IsBelow.join s.dir hloader)
  have hfound : Confined root (fun _ => True) (s.loader? c) := by
    unfold ModuleSet.loader?
    split
    · refine staysIn_bind (staysIn_text? hfile hfile) fun text _ => ?_
      cases text with
      | none => exact staysIn_pure trivial
      | some text => exact staysIn_pure trivial
    · exact staysIn_pure trivial
  exact staysIn_bind hfound fun loader _ => staysIn_pure trivial

theorem confined_bundle (h : request.LiesBelow root)
    (hloader : (Path.mk c.loaderFile).isInside = true) :
    Confined root (fun _ => True) (Bundle.ofRequest c request) := by
  refine staysIn_bind (confined_resolve h) fun r hr => ?_
  exact confined_emit (hr ▸ h.directory) hloader r.order

end BundleAccess

/-- **A bundle asks only about paths below the root of its site.**  This holds for every request path and
for all scripts, on file systems that list names without slashes, also if these change meanwhile. -/
theorem Site.isBelow_of_asks_bundle (site : Site)
    (hloader : (Path.mk site.convention.loaderFile).isInside = true) (text : String) (q : Question)
    (hq : Access.Asks PlainNames (site.bundle text).run q) : site.root.IsBelow q.path := by
  have hconfined : BundleAccess.Confined site.root (fun _ => True) (site.bundle text) := by
    have hrequest : BundleAccess.Confined site.root (Request.LiesBelow site.root) (site.request text) := by
      unfold Site.request
      cases h : Request.parse site.root site.convention text with
      | error fault => exact BundleAccess.staysIn_throw _
      | ok r => exact BundleAccess.staysIn_pure (Request.liesBelow_parse h)
    exact BundleAccess.staysIn_bind hrequest fun r hr => BundleAccess.confined_bundle hr hloader
  exact Access.StaysIn.of_asks hconfined hq

/-- An application that declares ids outside of its site, and one inside. -/
def straySite : Site := { root := ⟨"/srv"⟩ }

/-- The files of that application.  The ones outside would be found by their ids. -/
def strayFiles : MemoryTree :=
  .ofFiles
    [(⟨"/srv/js/0_app.js"⟩,
      "((a,Script)=>setOptionalDependencies(['../../etc/1','/etc/2','./lib/3']))".toUTF8),
     (⟨"/srv/js/lib/3_util.js"⟩, "".toUTF8),
     (⟨"/etc/1_key.js"⟩, "".toUTF8), (⟨"/etc/2_key.js"⟩, "".toUTF8)]

theorem strayFiles_isBelow :
    Question.content ⟨"/srv/js/./lib/3_util.js"⟩
        ∈ (straySite.bundle "//js/0_app.js").run.questions strayFiles.fileSystem ∧
      straySite.root.IsBelow ⟨"/srv/js/./lib/3_util.js"⟩ := by
  have hasked : Question.content ⟨"/srv/js/./lib/3_util.js"⟩
      ∈ (straySite.bundle "//js/0_app.js").run.questions strayFiles.fileSystem := by
    decide +kernel
  have hasks := Access.asks_of_mem_questions strayFiles.plainNames hasked
  exact ⟨hasked, straySite.isBelow_of_asks_bundle (by decide +kernel) _ _ hasks⟩

end ScriptBundle
