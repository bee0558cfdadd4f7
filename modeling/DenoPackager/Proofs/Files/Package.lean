import DenoPackager.Proofs.Course.Stages
import DenoPackager.Proofs.Files.Emission
import DenoPackager.Proofs.Links.Meeting

/-!
# What a build leaves in the package

The stages of a build leave their files in the package: the manifest, the sources, and what the
passes emit. None of them touches what an earlier one has left, and none touches anything else.

## Main definitions

* `Build.request`: what is to be transformed in a build.
* `Build.Emission`: what the stages up to the last pass leave.
* `Build.given`: a build that is given its program, so that it can be computed.

## Main results

* `Build.of_run_prepare`: the transformed program of a build.
* `Build.of_run_equip`, `Build.of_run_checkedProject`: what the stages before the passes leave.
* `Build.emission`: what all stages up to the last pass leave.
* `Build.run_build_given`: such a build is the same.
-/

namespace DenoPackager

open DenoPackager.Action

variable {w v : Workspace}

/-! ### Still actions -/

theorem Policy.of_run_checkWrite {policy : Policy} {text : String}
    (h : (policy.checkWrite text).run w = (.ok (), v)) :
    policy.allowsWrite w.cwd (.ofString text) = true := by
  obtain ⟨w', u, hget, hrest⟩ := of_run_bind_eq_ok h
  rw [run_get, Prod.mk.injEq, Except.ok.injEq] at hget
  obtain ⟨rfl, rfl⟩ := hget
  simp only at hrest
  split at hrest
  · assumption
  · obtain ⟨_, u', -, hfail⟩ := of_run_bind_eq_ok hrest
    rw [run_fail] at hfail
    simp at hfail

theorem Discovery.still_find (root : Path) (pattern : Json) (excluded : List Path) :
    (find root pattern excluded).Still := by
  refine still_get.bind fun w => ?_
  refine (Still.onlyIf _ (still_failure _)).bind fun _ => ?_
  exact (still_look _).bind fun _ => (still_log _ _).bind fun _ => still_pure _

theorem Transform.still_transform (base : Path) (request : Transform.Request) :
    (transform base request).Still :=
  (still_look _).bind fun _ => (still_log _ _).bind fun _ => still_pure _

namespace PackageManager

variable (m : PackageManager) (tools : Tools) (policy : Policy) (args : List String)

theorem still_start : (m.start tools policy args).Still := by
  refine (policy.still_checkRun _).bind fun _ => (still_log _ _).bind fun _ => ?_
  refine still_get.bind fun w => (still_note _).bind fun _ => ?_
  cases tools.packageManager w (m.commandFor tools args) with
  | missing => exact (still_note _).bind fun _ => still_fail _
  | exits code => exact still_pure _

theorem still_finish (c : StartedCommand) : (m.finish c).Still := by
  refine (still_note _).bind fun _ => ?_
  split
  · exact still_pure ()
  · exact still_fail _

theorem still_run : (m.run tools policy args).Still :=
  (m.still_start tools policy args).bind fun c => m.still_finish c

end PackageManager

/-! ### Transformed programs -/

namespace Transform

variable {t : FileTree} {base cwd : Path} {request : Request} {c : Collection}
  {mainSeen testSeen : List Module}

/-- The files of a transformed program are its modules, at their output paths. -/
theorem map_path_adapt (c : Collection) (cwd : Path) (request : Request) :
    (c.adapt cwd request).allFiles.map (·.path) =
      c.modules.map fun m => c.layout.outPath m.path := by
  simp only [Collection.adapt, TransformOutput.allFiles, adaptGroup, Collection.modules,
    List.map_append, List.map_map]
  rfl

/-- **The files of a transformed program** that is seen from an absolute directory lie below its
output directory, each at a place of its own. -/
theorem Collected.paths_adapt (h : Collected t cwd base request mainSeen testSeen c)
    (hbase : base.Proper) (habs : base.isAbsolute = true) :
    (∀ f ∈ (c.adapt cwd request).allFiles, IsBelow f.path) ∧
      ((c.adapt cwd request).allFiles.map (·.path)).Nodup := by
  refine ⟨fun f hf => ?_, ?_⟩
  · have hmem := List.mem_map_of_mem (f := (·.path)) hf
    rw [map_path_adapt, List.mem_map] at hmem
    obtain ⟨m, hm, hpath⟩ := hmem
    obtain ⟨dirs, name, hparts⟩ := h.parts_eq hm
    rw [← hpath, outPath_of_parts hparts]
    exact isBelow_text (h.proper_rest hbase hm hparts) (by simp)
      ((Layout.inside_iff hparts).1 (h.inside hbase habs hm))
  · rw [map_path_adapt]
    exact h.nodup_outPaths hbase

end Transform

namespace Build

variable {b : BuildTools} {options : BuildOptions} {output : TransformOutput} {dir : Place}

/-- **What is to be transformed** in a build with these tests. -/
def request (options : BuildOptions) (tests : List Path) : Transform.Request where
  entryPoints := (EntryPoint.ofSpecs options.entryPoints).map (·.path)
  testEntryPoints := tests.map fun test => .str test.text
  shimPackage := options.shim.importName
  mappings := options.mappings

/-! ### Before the passes -/

theorem still_discover : (discover options).Still := by
  rw [discover]
  split
  · exact still_get.bind fun _ => (Discovery.still_find _ _ _).bind fun _ =>
      (still_log _ _).bind fun _ => still_pure _
  · exact still_pure _

/-- Without tests, none are found. -/
theorem of_run_discover {tests : List Path} (h : (discover options).run w = (.ok tests, v))
    (htest : options.test = false) : tests = [] := by
  rw [discover, htest, if_neg (by decide), run_pure, Prod.mk.injEq, Except.ok.injEq] at h
  exact h.1.symm

/-- **The transformed program of a build** whose modules are transformed in files. -/
theorem of_run_prepare (htransformer : b.transformer = none)
    (h : (prepare b options).run w = (.ok output, v)) :
    w.SameFiles v ∧ b.policy.allowsWrite w.cwd (.ofString options.outDir.text) = true ∧
      ∃ tests c, (options.test = false → tests = []) ∧
        Transform.collect w.tree w.cwd w.cwd.rooted (request options tests) = .ok c ∧
        output = c.adapt w.cwd (request options tests) := by
  obtain ⟨_, u₁, hcheck, h₁⟩ := of_run_bind_eq_ok h
  have hsame₁ := still_ofExcept _ _ _ _ hcheck
  obtain ⟨_, u₂, hallowed, h₂⟩ := of_run_bind_eq_ok h₁
  have hsame₂ := hsame₁.trans (b.policy.still_checkWrite _ _ _ _ hallowed)
  have hallows := Policy.of_run_checkWrite hallowed
  rw [hsame₁.cwd] at hallows
  obtain ⟨_, u₃, hlog, h₃⟩ := of_run_bind_eq_ok h₂
  have hsame₃ := hsame₂.trans (still_log _ _ _ _ _ hlog)
  obtain ⟨tests, u₄, hdiscover, h₄⟩ := of_run_bind_eq_ok h₃
  have hsame₄ := hsame₃.trans (still_discover _ _ _ hdiscover)
  obtain ⟨w', u₅, hget, h₅⟩ := of_run_bind_eq_ok h₄
  rw [run_get, Prod.mk.injEq, Except.ok.injEq] at hget
  obtain ⟨rfl, rfl⟩ := hget
  obtain ⟨output', u₆, htransform, h₆⟩ := of_run_bind_eq_ok h₅
  obtain ⟨_, u₇, hwarn, hend⟩ := of_run_bind_eq_ok h₆
  rw [run_pure, Prod.mk.injEq, Except.ok.injEq] at hend
  obtain ⟨rfl, rfl⟩ := hend
  rw [htransformer, Option.getD_none, hsame₄.cwd] at htransform
  have hsame₆ := hsame₄.trans (Transform.still_transform _ _ _ _ _ htransform)
  obtain ⟨c, hc, hout⟩ := Transform.collect_of_run_transform htransform
  rw [hsame₄.tree, hsame₄.cwd] at hc
  rw [hsame₄.cwd] at hout
  exact ⟨hsame₆.trans (Still.forEach (fun _ => still_log _ _) _ _ _ _ hwarn), hallows, tests, c,
    of_run_discover hdiscover, hc, hout⟩

/-- **Writing the manifest** finds the package. -/
theorem of_run_writePackageFiles (hw : w.Grounded) {entries : List EntryPoint}
    (h : (writePackageFiles b options entries output).run w = (.ok (), v)) :
    ∃ dir manifest, v.Leads options.outDir dir ∧
      Manifest.build entries options.shim output options.package options.test options.declaration =
        .ok manifest ∧
      w.SameOutside (touched dir ["package.json", ".npmignore"]) v ∧
      v.Names (options.outDir.child "package.json") (dir ++ ["package.json"]) ∧
      v.tree.file? (dir ++ ["package.json"]) = some (Manifest.fileText manifest).toUTF8 := by
  obtain ⟨manifest, u, hmanifest, h₁⟩ := of_run_bind_eq_ok h
  obtain ⟨_, u', hwrite, h₂⟩ := of_run_bind_eq_ok h₁
  obtain ⟨hbuild, rfl⟩ := of_run_ofExcept_eq_ok hmanifest
  have hparts : (options.outDir.child "package.json").parts =
      options.outDir.parts ++ ["package.json"] := rfl
  obtain ⟨place, hnames, hwrote⟩ := Writer.wrote_writeMarked hw hparts (by decide) hwrite
  have hname : ["package.json"] ≠ [] ∧ Path.up ∉ ["package.json"] := by decide
  obtain ⟨dir, hdir⟩ := Workspace.Names.leads hnames hname.1
  obtain rfl := Workspace.Names.eq_append hdir hnames hname.1 hname.2
  have hfile := hwrote.tree.file?_eq (List.mem_singleton_self _) (by simp)
  have hfirst : u.SameOutside (touched dir ["package.json", ".npmignore"]) u' := by
    refine hwrote.sameOutside.mono fun q hq => .inr ⟨"package.json", by simp, ?_⟩
    exact (List.mem_singleton.1 hq) ▸ List.prefix_refl _
  -- the list of files that are not published stands next to the manifest
  have hsecond : u'.SameOutside {dir ++ [".npmignore"]} v := by
    split at h₂
    · rename_i text _
      have hignore : [".npmignore"] ≠ [] ∧ Path.up ∉ [".npmignore"] := by decide
      refine (Writer.wrote_below (hwrote.sameOutside.grounded hw) hdir hignore.1 hignore.2
        h₂).2.sameOutside.mono fun q hq => List.mem_singleton.1 hq
    · rw [run_pure, Prod.mk.injEq] at h₂
      rw [← h₂.2]
      exact .refl _ _
  refine ⟨dir, manifest, hsecond.leads hdir, hbuild, hfirst.trans (hsecond.mono ?_),
    hsecond.names hnames, ?_⟩
  · rintro q rfl
    exact .inr ⟨".npmignore", by simp, List.prefix_refl _⟩
  · rw [hsecond.tree.files _ fun heq => ?_, hfile]
    · rfl
    · exact absurd (@List.append_cancel_left _ dir _ _ heq) (by decide)

/-- **Installing packages** touches the sources only. -/
theorem of_run_install (hw : w.Grounded) (hdir : w.Leads options.outDir dir)
    (hbelow : ∀ f ∈ output.allFiles, IsBelow f.path)
    (h : (install b options output).run w = (.ok (), v)) :
    w.SameOutside (touched dir ["src"]) v := by
  match hs : ((packageManager options).start b.tools b.policy ["install"]).run w with
  | (started, u) =>
  match hk : (keepSources b options output).run u with
  | (kept, u') =>
    rw [run_install b options output hs hk] at h
    rcases settle_cases (packageManager options) kept started u' with
      ⟨command, rfl, rfl⟩ | ⟨e, x, he, -⟩
    · have hstart : w.SameOutside (touched dir ["src"]) u :=
        (PackageManager.still_start _ _ _ _).touches _ _ hs
      have hfinish : u'.SameOutside (touched dir ["src"]) v :=
        (PackageManager.still_finish (packageManager options) command).touches _ _ h
      refine (hstart.trans ?_).trans hfinish
      refine (Touches.onlyIf _ (Touches.forEach ?_)) _ _ hk
      intro f hf x hx _ y hy
      have hup : Path.up ∉ "src" :: (Path.ofString f.path).parts := by
        rw [List.mem_cons, not_or]
        exact ⟨by decide, (hbelow f hf).up_not_mem⟩
      rw [(hbelow f hf).joinText, sourceDir, Path.child, List.append_assoc] at hy
      refine (Writer.wrote_below ((hstart.trans hx).grounded hw) ((hstart.trans hx).leads hdir)
        (by simp) hup hy).2.sameOutside.mono fun q hq => ?_
      rw [List.mem_singleton.1 hq]
      exact .inr ⟨"src", by simp, (Path.ofString f.path).parts, by simp⟩
    · rw [he] at h
      exact absurd (congrArg Prod.fst h) (by simp)

/-- **What is put in place for the compiler**: the manifest and the sources. -/
theorem of_run_equip (hw : w.Grounded) (hbelow : ∀ f ∈ output.allFiles, IsBelow f.path)
    (h : (equip b options output).run w = (.ok (), v)) :
    ∃ dir manifest, v.Leads options.outDir dir ∧
      Manifest.build (EntryPoint.ofSpecs options.entryPoints) options.shim output options.package
        options.test options.declaration = .ok manifest ∧
      w.SameOutside (touched dir ["package.json", ".npmignore", "src"]) v ∧
      v.Names (options.outDir.child "package.json") (dir ++ ["package.json"]) ∧
      v.tree.file? (dir ++ ["package.json"]) = some (Manifest.fileText manifest).toUTF8 := by
  obtain ⟨_, u, hwrite, h₁⟩ := of_run_bind_eq_ok h
  obtain ⟨_, u', hlog, hinstall⟩ := of_run_bind_eq_ok h₁
  obtain ⟨dir, manifest, hdir, hbuild, hfirst, hnames, hfile⟩ := of_run_writePackageFiles hw hwrite
  have hsame : u.SameOutside (touched dir ["src"]) u' := (still_log _ _).touches _ _ hlog
  have hsecond := hsame.trans (of_run_install (hsame.grounded (hfirst.grounded hw))
    (hsame.leads hdir) hbelow hinstall)
  refine ⟨dir, manifest, hsecond.leads hdir, hbuild, (hfirst.mono (touched_mono (by simp))).trans
    (hsecond.mono (touched_mono (by simp))), hsecond.names hnames, ?_⟩
  rw [hsecond.tree.files _ (not_mem_touched (by decide) (by decide) []), hfile]

/-! ### The project -/

/-- The sources of a package are told apart by their names. -/
theorem sourcePath_inj {package : Path} (hproper : package.Proper) {name other : String}
    (hname : IsBelow name) (hother : IsBelow other) :
    sourcePath package name = sourcePath package other ↔ name = other := by
  constructor
  · intro heq
    rw [← (isSource_sourcePath hproper hname).2.2, heq, (isSource_sourcePath hproper hother).2.2]
  · rintro rfl
    rfl

/-- A file that is not there yet goes to the end. -/
theorem putFile_of_not_mem {files : List (String × String)} {path text : String}
    (h : path ∉ files.map Prod.fst) :
    Project.putFile files path text = files ++ [(path, text)] := by
  induction files with
  | nil => rfl
  | cons f files ih =>
    rw [List.map_cons, List.mem_cons, not_or] at h
    rw [Project.putFile, if_neg (Ne.symm h.1), ih h.2, List.cons_append]

/-- **Adding sources** of different names puts them into the project in order. -/
theorem of_run_addSources (hproper : options.outDir.Proper) {fs : List TransformedFile}
    (hbelow : ∀ f ∈ fs, IsBelow f.path) (hnodup : (fs.map (·.path)).Nodup) {start project : Project}
    (hnew : ∀ f ∈ fs, sourcePath options.outDir f.path ∉ start.files.map Prod.fst)
    (h : (addSources options start fs).run w = (.ok project, v)) :
    w.SameFiles v ∧ project.options = start.options ∧
      project.files = start.files ++ fs.map fun f => (sourcePath options.outDir f.path, f.text) := by
  induction fs generalizing w start with
  | nil =>
    have hpure : (pure start : Action Project).run w = (.ok project, v) := h
    rw [run_pure, Prod.mk.injEq, Except.ok.injEq] at hpure
    obtain ⟨rfl, rfl⟩ := hpure
    exact ⟨.refl _, rfl, by simp⟩
  | cons f fs ih =>
    obtain ⟨next, u, hadd, hrest⟩ := of_run_bind_eq_ok h
    obtain ⟨_, u', hlog, hend⟩ := of_run_bind_eq_ok hadd
    rw [run_pure, Prod.mk.injEq, Except.ok.injEq] at hend
    obtain ⟨rfl, rfl⟩ := hend
    have hfirst := Still.onlyIf _ (still_log _ _) _ _ _ hlog
    rw [List.map_cons, List.nodup_cons] at hnodup
    have hput : (start.add (sourcePath options.outDir f.path) f.text).files =
        start.files ++ [(sourcePath options.outDir f.path, f.text)] :=
      putFile_of_not_mem (hnew f List.mem_cons_self)
    have hnext : ∀ g ∈ fs, sourcePath options.outDir g.path ∉
        (start.add (sourcePath options.outDir f.path) f.text).files.map Prod.fst := by
      intro g hg hmem
      rw [hput, List.map_append, List.mem_append] at hmem
      rcases hmem with hmem | hmem
      · exact hnew g (List.mem_cons_of_mem f hg) hmem
      · rw [List.map_singleton, List.mem_singleton, sourcePath_inj hproper
          (hbelow g (List.mem_cons_of_mem f hg)) (hbelow f List.mem_cons_self)] at hmem
        exact hnodup.1 (hmem ▸ List.mem_map_of_mem hg)
    obtain ⟨hlater, hoptions, hfiles⟩ :=
      ih (fun g hg => hbelow g (List.mem_cons_of_mem f hg)) hnodup.2 hnext hrest
    refine ⟨hfirst.trans hlater, hoptions, ?_⟩
    rw [hfiles, List.map_cons, ← List.singleton_append, ← List.append_assoc]
    exact congrArg (· ++ _) hput

/-- **The project of a build** holds the transformed program. -/
theorem of_run_createProject (hproper : options.outDir.Proper)
    (hbelow : ∀ f ∈ output.allFiles, IsBelow f.path) (hnodup : (output.allFiles.map (·.path)).Nodup)
    {project : Project} (h : (createProject options output).run w = (.ok project, v)) :
    w.SameFiles v ∧ project.Holds options.outDir output.allFiles := by
  obtain ⟨hsame, hoptions, hfiles⟩ :=
    of_run_addSources hproper hbelow hnodup (by simp [Project.empty]) h
  refine ⟨hsame, ?_, by simpa [Project.empty] using hfiles, hbelow, hnodup⟩
  rw [hoptions]
  exact congrArg Except.ok (Path.ofString_text (hproper.child (by decide)))

/-- **A program that is checked** touches no file. -/
theorem of_run_checkedProject (hw : w.Grounded) (hdir : w.Leads options.outDir dir)
    (hproper : options.outDir.Proper) (hbelow : ∀ f ∈ output.allFiles, IsBelow f.path)
    (hnodup : (output.allFiles.map (·.path)).Nodup) {project : Project}
    (h : (checkedProject b options output).run w = (.ok project, v)) :
    w.SameOutside ∅ v ∧ project.Holds options.outDir output.allFiles := by
  obtain ⟨_, u₁, u₂, u₃, hlog, hcreate, hlog', hcheck⟩ :=
    of_run_checkedProject_eq_ok b options output h
  obtain ⟨hcreated, hholds⟩ := of_run_createProject hproper hbelow hnodup hcreate
  have hsame := ((still_log _ _ _ _ _ hlog).trans hcreated).trans (still_log _ _ _ _ _ hlog')
  have hbefore : w.SameOutside ∅ u₃ := hsame.sameOutside
  refine ⟨hbefore.trans ?_, hholds⟩
  refine Touches.onlyIf _ ?_ _ _ hcheck
  refine Touches.bind (still_log _ _).touches fun _ x hx => ?_
  have hx' : w.SameOutside ∅ x := hbefore.trans ((still_log _ _).touches _ _ hx)
  have hparent : (options.outDir.child "src").parent = options.outDir := by
    rw [Path.parent, Path.child, List.dropLast_concat]
  have hsources : ∀ f ∈ project.files, IsSource (options.outDir.child "src") f.1 := by
    intro f hf
    rw [hholds.files_eq, List.mem_map] at hf
    obtain ⟨g, hg, rfl⟩ := hf
    exact (isSource_sourcePath hproper (hbelow g hg)).1
  refine Touches.bind (Compiler.touches_check (hx'.grounded hw) hholds.root
    (hparent.symm ▸ hx'.leads hdir) hsources) fun ds y _ => ?_
  refine Still.touches ?_
  rw [requireNoDiagnostics]
  split
  · exact still_pure ()
  · exact (still_log _ _).bind fun _ => still_fail _

/-! ### All stages -/

/-- **What the stages up to the last pass leave** of a build that was begun in `w`: the manifest, and
in the directory of each pass what its sources are compiled to. -/
structure Emission (emit : CompilerRun → String → ByteArray) (options : BuildOptions)
    (output : TransformOutput) (dir : Place) (manifest : Table Key) (w v : Workspace) : Prop where
  package : v.Leads options.outDir dir
  manifest_eq : Manifest.build (EntryPoint.ofSpecs options.entryPoints) options.shim output
    options.package options.test options.declaration = .ok manifest
  names_manifest : v.Names (options.outDir.child "package.json") (dir ++ ["package.json"])
  file_manifest : v.tree.file? (dir ++ ["package.json"]) = some (Manifest.fileText manifest).toUTF8
  touches : w.SameOutside (touched dir (["package.json", ".npmignore", "src"] ++
    (Pass.all options.declaration).map Pass.directory)) v
  passes : ∀ pass ∈ Pass.all options.declaration,
    ∃ run, pass.Leaves emit options.outDir dir output.allFiles w v run

/-- The passes of a build have different directories, and none of the names that the stages before
them touch. -/
theorem directory_all (declaration : Bool) : ((Pass.all declaration).map Pass.directory).Nodup ∧
    ∀ name ∈ (Pass.all declaration).map Pass.directory,
      name ∉ ["package.json", ".npmignore", "src"] := by
  cases declaration <;> decide

/-- **What all stages up to the last pass leave.** -/
theorem emission {emit : CompilerRun → String → ByteArray} (htools : b.tools.Compiles emit)
    (hw : w.Grounded) (hproper : options.outDir.Proper)
    (hbelow : ∀ f ∈ output.allFiles, IsBelow f.path) (hnodup : (output.allFiles.map (·.path)).Nodup)
    {u x y : Workspace} {project : Project} {results : List (Pass × EmitResult)}
    (hprepare : w.SameFiles u) (hequip : (equip b options output).run u = (.ok (), x))
    (hcheck : (checkedProject b options output).run x = (.ok project, y))
    (hemit : (emitAll b options project).run y = (.ok results, v)) :
    ∃ dir manifest, Emission emit options output dir manifest w v := by
  have hu : w.SameOutside ∅ u := hprepare.sameOutside
  obtain ⟨dir, manifest, hdir, hbuild, hequipped, hnames, hfile⟩ :=
    of_run_equip (hu.grounded hw) hbelow hequip
  have hx := hequipped.grounded (hu.grounded hw)
  obtain ⟨hchecked, hholds⟩ := of_run_checkedProject hx hdir hproper hbelow hnodup hcheck
  obtain ⟨hpasses, hleaves⟩ := Pass.of_run_emitAll htools (directory_all options.declaration).1
    (hchecked.grounded hx) hproper (hchecked.leads hdir) hholds hemit
  have hbefore := (hu.of_empty.trans hequipped).trans hchecked.of_empty
  refine ⟨dir, manifest, hpasses.leads (hchecked.leads hdir), hbuild,
    hpasses.names (hchecked.names hnames), ?_, ?_, fun pass hpass => ?_⟩
  · rw [hpasses.tree.files _ (not_mem_touched ?_ (by decide) []),
      hchecked.tree.files _ (Set.notMem_empty _), hfile]
    exact fun hmem => (directory_all options.declaration).2 _ hmem (by simp)
  · exact (hbefore.mono (touched_mono (List.subset_append_left _ _))).trans
      (hpasses.mono (touched_mono (List.subset_append_right _ _)))
  · obtain ⟨run, hrun⟩ := hleaves pass hpass
    refine ⟨run, hrun.after hbefore fun q => ?_⟩
    exact not_mem_touched ((directory_all options.declaration).2 _ (List.mem_map_of_mem hpass))
      pass.directory_shape.2.2.1 q

/-- **The stages of a build that succeeded.** -/
theorem of_run_build {r : BuildResult} (h : (build b options).run w = (.ok r, v)) :
    ∃ output project results u x y z z', (prepare b options).run w = (.ok output, u) ∧
      (equip b options output).run u = (.ok (), x) ∧
      (checkedProject b options output).run x = (.ok project, y) ∧
      (emitAll b options project).run y = (.ok results, z) ∧
      (onlyIf options.test (runTests b options output)).run z = (.ok (), z') ∧ z'.SameFiles v := by
  obtain ⟨output, u, hprepare, h₁⟩ := of_run_bind_eq_ok h
  obtain ⟨_, x, hequip, h₂⟩ := of_run_bind_eq_ok h₁
  obtain ⟨project, y, hcheck, h₃⟩ := of_run_bind_eq_ok h₂
  obtain ⟨results, z, hemit, h₄⟩ := of_run_bind_eq_ok h₃
  obtain ⟨_, z', htests, hend⟩ := of_run_bind_eq_ok h₄
  have hstill : (do
      log .info "Complete!"
      let w ← get
      pure { outDir := options.outDir, written := w.written,
             warnings := output.warnings } : Action BuildResult).Still :=
    (still_log _ _).bind fun _ => still_get.bind fun _ => still_pure _
  exact ⟨output, project, results, u, x, y, z, z', hprepare, hequip, hcheck, hemit, htests,
    hstill _ _ _ hend⟩

/-! ### Builds of modules that were collected -/

/-- **A transformation that gives a program**, and says so as the one of modules in files does. -/
def giving (output : TransformOutput) : Transformer := fun _ => do
  log .debug ("Transformed " ++ Problem.count output.main.files.length ++ " main and " ++
    Problem.count output.test.files.length ++ " test file(s)")
  pure output

/-- What is done before a program is transformed: the tests are looked for. -/
def opening (b : BuildTools) (options : BuildOptions) : Action (List Path) := do
  ofExcept (EntryPoint.check (EntryPoint.ofSpecs options.entryPoints))
  b.policy.checkWrite options.outDir.text
  log .info "Transforming..."
  discover options

/-- What is done before a program is transformed decides about the transformation. -/
theorem run_prepare {tests : List Path} (hopening : (opening b options).run w = (.ok tests, v)) :
    (prepare b options).run w =
      ((b.transformer.getD (Transform.transform v.cwd.rooted)) (request options tests) >>=
        fun output => do
          forEach (log .warning) output.warnings
          pure output).run v := by
  obtain ⟨_, u₁, hcheck, h₁⟩ := of_run_bind_eq_ok hopening
  obtain ⟨_, u₂, hallowed, h₂⟩ := of_run_bind_eq_ok h₁
  obtain ⟨_, u₃, hlog, hdiscover⟩ := of_run_bind_eq_ok h₂
  rw [prepare, run_bind_of_ok hcheck, run_bind_of_ok hallowed, run_bind_of_ok hlog,
    transformProgram, run_bind_of_ok hdiscover, run_bind_of_ok (run_get v)]
  rfl

/-- **The program that a build transforms**, if it is collected in walks of at most so many steps. -/
def programWithin (n : ℕ) (b : BuildTools) (options : BuildOptions) (w : Workspace) :
    Option TransformOutput :=
  match (opening b options).run w with
  | (.error _, _) => none
  | (.ok tests, v) =>
    (Transform.collectWithin n v.tree v.cwd v.cwd.rooted (request options tests)).map
      fun c => c.adapt v.cwd (request options tests)

/-- **A build that is given its program**, and has no walk to do. -/
def given (n : ℕ) (b : BuildTools) (options : BuildOptions) (w : Workspace) : BuildTools :=
  { b with transformer := (programWithin n b options w).map giving }

/-- **A build that is given its program** prepares the same. -/
theorem run_prepare_given (n : ℕ) (htransformer : b.transformer = none)
    (h : (programWithin n b options w).isSome) :
    (prepare b options).run w = (prepare (given n b options w) options).run w := by
  obtain ⟨output, houtput⟩ := Option.isSome_iff_exists.1 h
  have hsome := houtput
  rw [programWithin] at hsome
  split at hsome
  · cases hsome
  · rename_i tests v hopening
    obtain ⟨c, hc, rfl⟩ := Option.map_eq_some_iff.1 hsome
    have htree : Transform.transformTree v.tree v.cwd v.cwd.rooted (request options tests) =
        .ok (c.adapt v.cwd (request options tests)) := by
      rw [Transform.transformTree, Transform.collect_of_collectWithin n hc]
      rfl
    have hsame : (Transform.transform v.cwd.rooted (request options tests)).run v =
        (giving (c.adapt v.cwd (request options tests)) (request options tests)).run v := by
      rw [Transform.transform, run_bind_of_ok (run_look_of_ok htree)]
      rfl
    have hgiven : (prepare (given n b options w) options).run w = _ := run_prepare hopening
    rw [run_prepare hopening, hgiven, given, houtput, htransformer, Option.getD_none,
      Option.map_some, Option.getD_some, run_bind, run_bind, hsame]

/-- So it is the same build. -/
theorem run_build_given (n : ℕ) (htransformer : b.transformer = none)
    (h : (programWithin n b options w).isSome) :
    (build b options).run w = (build (given n b options w) options).run w := by
  rw [build, run_bind, build, run_bind, run_prepare_given n htransformer h]
  rfl

end Build

end DenoPackager
