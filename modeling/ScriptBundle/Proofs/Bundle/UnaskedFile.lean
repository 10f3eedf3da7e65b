import ScriptBundle.Proofs.Bundle.SharedFiles
import ScriptBundle.Proofs.Survey.Unaffected

/-!
# Bundles do not depend on files that nobody asks for

A bundle is made from the files that its request asks for, with all that their modules declare.  If one
more file is written to a tree of files, and it is none of these, then the bundle stays as it is, to the
last character.

A directory whose path ends with a backslash lists no files although they can be read.  They are found
when another file makes the directory list their names.

## Main definitions

* `Request.LeadsTo`: a request asks for an id in the course of its surveys.
* `Bundle.Wants`: the request selects an id, or a module of the bundle declares it.

## Main results

* `outcome_extend_write`, `outcome_ofRequest_write`: a closure and a set of modules stay as they are.
* `Bundle.ofRequest_write`: **a bundle stays as it is if a file is written that nobody asks for.**
-/

namespace ScriptBundle

open BundleAccess Survey

variable {c : Convention} {fs : FileSystem} {t : MemoryTree} {request : Request} {path : Path}
  {file : MemoryFile} {id : ModuleId} {limit : Nat}

/-! ### What a request asks for -/

/-- A request asks for an id in the course of its surveys: it selects it, or leads to a module that declares
it. -/
def Request.LeadsTo (c : Convention) (fs : FileSystem) (request : Request) (id : ModuleId) : Prop :=
  request.Selects c id ∨ ∃ m, Discovered c fs request m ∧ ∃ kind, (kind, id) ∈ m.declared

/-- The surveys for pending ids ask only for ids that modules declare. -/
theorem Closure.Explored.leadsTo {k : Closure} (hk : Explored c fs request k)
    (h : (Request.ofIds request.directory k.pending).Selects c id) : request.LeadsTo c fs id := by
  have hids : ∀ id ∈ k.pending, id.IsCanonical c := fun id => hk.isCanonical_of_mem_pending
  obtain ⟨wanted, hwanted, hcategory, hincludes⟩ := h
  have hasked : AsksFor (fun _ => false) (c.canonical wanted.1) wanted.2 id := ⟨hcategory, hincludes, rfl⟩
  have hpending : id ∈ k.pending := ((exists_asksFor_iff hids).1 ⟨wanted, hwanted, hasked⟩).1
  obtain ⟨-, ⟨key, kind, m, hm, hdeclared⟩, -⟩ := hk.consistent.mem_pending_iff.1 hpending
  exact .inr ⟨m, hk.discovered _ hm, kind, hdeclared⟩

/-! ### One more file -/

/-- The text of a set of modules stays as it is if the new file is not the loader script. -/
theorem ModuleSet.outcome_emit_write {s : ModuleSet} (h : (s.dir.join ⟨c.loaderFile⟩).key ≠ path.key)
    (order : List (Fin s.size)) : outcome (t.write path file).fileSystem (s.emit c order)
      = outcome t.fileSystem (s.emit c order) := by
  have hloader : outcome (t.write path file).fileSystem (s.loader? c) = outcome t.fileSystem (s.loader? c) := by
    unfold loader?
    cases s.hasSelfRegistering with
    | false => rfl
    | true =>
      rw [if_pos rfl]
      dsimp only
      rw [outcome_bind, outcome_bind, outcome_text?_write h]
      refine congrArg _ (funext fun text => ?_)
      cases text <;> rfl
  rw [emit, outcome_bind, outcome_bind, hloader]
  rfl

section

variable (ht : t.Keyed) (hapart : t.Apart path)
  (hpath : Unasked c request.directory (request.LeadsTo c t.fileSystem) path)
  (hlisted : Listed c t request.directory (request.LeadsTo c t.fileSystem))
  (hfile : ∀ p, request = .file p → p.key ≠ path.key)

include ht hapart hpath hlisted hfile

/-- The closure of a request stays as it is. -/
theorem Closure.outcome_extend_write :
    outcome (t.write path file).fileSystem (extend c request.directory limit {} request)
      = outcome t.fileSystem (extend c request.directory limit {} request) := by
  refine outcome_extend_eq (P := Explored c t.fileSystem request) (fun k hk => ?_)
    (fun _ _ hk hfound => hk.add hfound) ?_ (fun _ hfound => explored_first hfound)
  · exact outcome_survey_write ht hapart hpath hlisted rfl (fun _ => hk.leadsTo) fun _ h => nomatch h
  · exact outcome_survey_write ht hapart hpath hlisted rfl (fun _ => .inl) hfile

/-- The set of modules of a request stays as it is. -/
theorem ModuleSet.outcome_ofRequest_write :
    outcome (t.write path file).fileSystem (ofRequest c request limit)
      = outcome t.fileSystem (ofRequest c request limit) := by
  rw [outcome_ofRequest, outcome_ofRequest,
    Closure.outcome_extend_write ht hapart hpath hlisted hfile]

/-- The weights and the load order stay as they are. -/
theorem Resolution.outcome_ofRequest_write :
    outcome (t.write path file).fileSystem (ofRequest c request)
      = outcome t.fileSystem (ofRequest c request) := by
  rw [ofRequest, outcome_bind, outcome_bind,
    ModuleSet.outcome_ofRequest_write ht hapart hpath hlisted hfile]
  refine congrArg _ (funext fun s => ?_)
  cases s.resolve <;> rfl

/-- What becomes of a request stays as it is. -/
theorem Bundle.outcome_ofRequest_write
    (hloader : (request.directory.join ⟨c.loaderFile⟩).key ≠ path.key) :
    outcome (t.write path file).fileSystem (ofRequest c request)
      = outcome t.fileSystem (ofRequest c request) := by
  rw [ofRequest, outcome_bind, outcome_bind,
    Resolution.outcome_ofRequest_write ht hapart hpath hlisted hfile]
  cases hr : outcome t.fileSystem (Resolution.ofRequest c request) with
  | error failure => rfl
  | ok r =>
    have hdir : r.set.dir = request.directory := by
      obtain ⟨k, -, hset⟩ := ModuleSet.exists_closure (Resolution.outcome_set hr)
      rw [hset]
      rfl
    rw [← hdir] at hloader
    exact ModuleSet.outcome_emit_write hloader r.order

end

/-! ### Bundles -/

/-- The request selects an id, or a module of the bundle declares it. -/
def Bundle.Wants (c : Convention) (fs : FileSystem) (request : Request) (id : ModuleId) : Prop :=
  request.Selects c id ∨ ∃ s, outcome fs (ModuleSet.ofRequest c request) = .ok s ∧
    ∃ m ∈ s.modules, ∃ kind, (kind, id) ∈ m.declared

/-- **A bundle stays as it is if a file is written that nobody asks for, if it is neither the requested file
nor the loader script, and if the directories list the module files that are asked for.** -/
theorem Bundle.ofRequest_write {b : Bundle} (ht : t.Keyed) (hapart : t.Apart path)
    (hpath : Unasked c request.directory (Bundle.Wants c t.fileSystem request) path)
    (hlisted : Listed c t request.directory (Bundle.Wants c t.fileSystem request))
    (hfile : ∀ p, request = .file p → p.key ≠ path.key)
    (hloader : (request.directory.join ⟨c.loaderFile⟩).key ≠ path.key)
    (hb : outcome t.fileSystem (ofRequest c request) = .ok b) :
    outcome (t.write path file).fileSystem (ofRequest c request) = .ok b := by
  obtain ⟨r, -, hset, -⟩ := exists_resolution hb
  -- what the request leads to has been put into the bundle
  have hwants : ∀ id, request.LeadsTo c t.fileSystem id → Bundle.Wants c t.fileSystem request id := by
    rintro id (hselects | ⟨m, hm, hdeclared⟩)
    · exact .inl hselects
    · exact .inr ⟨r.set, hset, m, (ModuleSet.mem_modules_ofRequest hset).2 hm, hdeclared⟩
  rw [outcome_ofRequest_write ht hapart (hpath.mono hwants) (hlisted.mono hwants) hfile hloader, hb]

/-- The order of a bundle names all modules of its set. -/
theorem Bundle.length_order {b : Bundle} {s : ModuleSet} (hb : outcome fs (ofRequest c request) = .ok b)
    (hs : outcome fs (ModuleSet.ofRequest c request) = .ok s) : b.order.length = s.size := by
  obtain ⟨r, -, hset, horder, -⟩ := exists_resolution hb
  obtain rfl := Except.ok.inj (hs.symm.trans hset)
  rw [horder, ModuleSet.keysIn, List.length_map, ModuleSet.sequence]
  split_ifs with hlength
  · exact hlength
  · exact List.length_finRange

/-! ### A file that nobody asks for, and one that brings another one to light -/

/-- An application that needs a utility of another category. -/
def toolFiles : MemoryTree :=
  .ofFiles
    [(⟨"js/0_app.js"⟩, "((a,Script)=>setLaunchDependencies('lib/3'))();".toUTF8),
     (⟨"js/lib/3_util.js"⟩, "let util = 3;".toUTF8)]

/-- The application can be bundled, and the utility is all that it declares. -/
theorem toolFiles_declared :
    ∃ b s, outcome toolFiles.fileSystem (Bundle.ofRequest {} (.file ⟨"js/0_app.js"⟩)) = .ok b ∧
      outcome toolFiles.fileSystem (ModuleSet.ofRequest {} (.file ⟨"js/0_app.js"⟩)) = .ok s ∧
      ∀ m ∈ s.modules.toList, ∀ d ∈ m.declared, d.2 = ⟨"lib", 3⟩ := by
  have hset : (outcome toolFiles.fileSystem (ModuleSet.ofRequest {} (.file ⟨"js/0_app.js"⟩))).map
      (fun s => decide ((∀ u v, s.Edge u v → u.val < v.val) ∧
        (outcome toolFiles.fileSystem (s.loader? {})).map (Option.map Loader.path) = .ok none ∧
        ∀ m ∈ s.modules.toList, ∀ d ∈ m.declared, d.2 = ⟨"lib", 3⟩)) = .ok true := by
    decide +kernel
  obtain ⟨b, r, hb, hr, -, hdeclared⟩ := Bundle.exists_of_checks hset
  exact ⟨b, r.set, hb, Resolution.outcome_set hr, hdeclared⟩

theorem toolFiles_write :
    ∃ b, outcome toolFiles.fileSystem (Bundle.ofRequest {} (.file ⟨"js/0_app.js"⟩)) = .ok b ∧
      outcome (toolFiles.write ⟨"js/lib/4_other.js"⟩ ⟨"let other = 4;".toUTF8, .epoch⟩).fileSystem
        (Bundle.ofRequest {} (.file ⟨"js/0_app.js"⟩)) = .ok b := by
  obtain ⟨b, s, hb, hs, hdeclared⟩ := toolFiles_declared
  have hapart : toolFiles.Apart ⟨"js/lib/4_other.js"⟩ :=
    ⟨by decide +kernel, by decide +kernel, by decide +kernel⟩
  have htidy : ∀ f ∈ toolFiles.files, Tidy f.1.toList :=
    MemoryTree.tidy_write (MemoryTree.tidy_write (fun f hf => nomatch hf) (by decide)) (by decide)
  have hwants : ∀ id, Bundle.Wants {} toolFiles.fileSystem (.file ⟨"js/0_app.js"⟩) id → id = ⟨"lib", 3⟩ := by
    rintro id (hselects | ⟨s', hs', m, hm, kind, hid⟩)
    · cases hselects
    · obtain rfl := Except.ok.inj (hs.symm.trans hs')
      exact hdeclared m (Vector.mem_toList_iff.2 hm) _ hid
  refine ⟨b, hb, Bundle.ofRequest_write (MemoryTree.keyed_ofFiles _) hapart ⟨by decide, by decide +kernel, ?_⟩
    (listed_of_tidy htidy) ?_ (by decide +kernel) hb⟩
  · intro id hid d name hd _ hkey hnumber
    obtain rfl := hwants id hid
    have hdir : categoryDirectory? {} (Request.file ⟨"js/0_app.js"⟩).directory "lib" = some ⟨"js/lib"⟩ := by
      decide +kernel
    have hfile : MemoryTree.below (Path.mk "js/lib").key ++ "4_other.js".toList
        = (Path.mk "js/lib/4_other.js").key.toList := by
      decide +kernel
    obtain rfl := Option.some.inj (hdir.symm.trans hd)
    obtain rfl := String.toList_inj.1 (List.append_cancel_left (hfile.trans hkey.symm))
    -- the number of the other file is another one
    have hother : moduleNumber? "js" "4_other.js" = some 4 := by decide +kernel
    cases hother.symm.trans hnumber
  · intro p hp
    obtain rfl := Request.file.inj hp
    decide +kernel

/-- An application that can do without a utility of a category whose name ends with a backslash.  The utility
is there, but its directory does not list it. -/
def hiddenFiles : MemoryTree :=
  .ofFiles
    [(⟨"js/0_app.js"⟩, "((a,Script)=>setOptionalDependencies('lib\\\\/3'))();".toUTF8),
     (⟨"js/lib\\/3_util.js"⟩, "let util = 3;".toUTF8)]

/-- The modules of the application, before and after a note is written. -/
theorem hiddenFiles_sizes :
    ∃ b s, outcome hiddenFiles.fileSystem (Bundle.ofRequest {} (.file ⟨"js/0_app.js"⟩)) = .ok b ∧
      outcome hiddenFiles.fileSystem (ModuleSet.ofRequest {} (.file ⟨"js/0_app.js"⟩)) = .ok s ∧ s.size = 1 ∧
      ∃ s', outcome (hiddenFiles.write ⟨"js/lib/3_util.js/notes.txt"⟩ ⟨"notes".toUTF8, .epoch⟩).fileSystem
        (ModuleSet.ofRequest {} (.file ⟨"js/0_app.js"⟩)) = .ok s' ∧ s'.size = 2 := by
  have hset : (outcome hiddenFiles.fileSystem (ModuleSet.ofRequest {} (.file ⟨"js/0_app.js"⟩))).map
      (fun s => decide ((∀ u v, s.Edge u v → u.val < v.val) ∧
        (outcome hiddenFiles.fileSystem (s.loader? {})).map (Option.map Loader.path) = .ok none ∧
        s.size = 1)) = .ok true := by
    decide +kernel
  have hset' : (outcome (hiddenFiles.write ⟨"js/lib/3_util.js/notes.txt"⟩ ⟨"notes".toUTF8, .epoch⟩).fileSystem
      (ModuleSet.ofRequest {} (.file ⟨"js/0_app.js"⟩))).map ModuleSet.size = .ok 2 := by
    decide +kernel
  obtain ⟨b, r, hb, hr, -, hsize⟩ := Bundle.exists_of_checks hset
  exact ⟨b, r.set, hb, Resolution.outcome_set hr, hsize, map_eq_ok_iff.1 hset'⟩

/-- Without a listing of all files that are asked for, a bundle may change: the note brings the utility to
light. -/
theorem hiddenFiles_write :
    ¬ ∀ (t : MemoryTree) (path : Path) (file : MemoryFile) (request : Request) (b : Bundle),
      t.Keyed → t.Apart path →
      Unasked {} request.directory (Bundle.Wants {} t.fileSystem request) path →
      (∀ p, request = .file p → p.key ≠ path.key) →
      (request.directory.join ⟨({} : Convention).loaderFile⟩).key ≠ path.key →
      outcome t.fileSystem (Bundle.ofRequest {} request) = .ok b →
        outcome (t.write path file).fileSystem (Bundle.ofRequest {} request) = .ok b := by
  intro h
  obtain ⟨b, s, hb, hs, hsize, s', hs', hsize'⟩ := hiddenFiles_sizes
  have hapart : hiddenFiles.Apart ⟨"js/lib/3_util.js/notes.txt"⟩ :=
    ⟨by decide +kernel, by decide +kernel, by decide +kernel⟩
  have hb' := h hiddenFiles ⟨"js/lib/3_util.js/notes.txt"⟩ ⟨"notes".toUTF8, .epoch⟩ (.file ⟨"js/0_app.js"⟩) b
    (MemoryTree.keyed_ofFiles _) hapart ⟨by decide, by decide +kernel, ?_⟩ ?_ (by decide +kernel) hb
  · have hlength := (Bundle.length_order hb hs).symm.trans (Bundle.length_order hb' hs')
    omega
  · intro id _ d name _ _ hkey hnumber
    -- the path of the note does not end like that of a module file, wherever it is cut
    have hnone : ∀ cs ∈ (Path.mk "js/lib/3_util.js/notes.txt").key.toList.tails,
        moduleNumber? "js" (String.ofList cs) = none := by
      decide +kernel
    have hname := hnone name.toList ((List.mem_tails _ _).2 ⟨_, hkey⟩)
    rw [String.ofList_toList] at hname
    cases hname.symm.trans hnumber
  · intro p hp
    obtain rfl := Request.file.inj hp
    decide +kernel

end ScriptBundle
