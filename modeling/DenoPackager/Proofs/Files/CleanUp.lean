import DenoPackager.Proofs.Files.Exports
import DenoPackager.Proofs.Files.Removal
import Mathlib.Data.List.Sort

/-!
# Cleaning up after the tests

After the tests of a package have run, the scripts of its test files are removed from the
directories of both script passes, and the launcher is removed. The names of these scripts are made
as those in the manifest are, so they are not always the names that the compiler has given to them.
The clean-up stops at the first name that no file has.

## Main definitions

* `TestLauncher.Tidy`: test groups whose scripts are named as they are compiled.
* `TestLauncher.Plain`: test groups of plain scripts and declaration files.
* `Build.throughTests`: a build up to the end of its tests.
* `Build.CleanedUp`: a package in which nothing of the tests is left, and all of the program is.

## Main results

* `Build.clean_up`: after which tests the clean-up succeeds and is complete.
* `Build.leftover_tests`: a build whose tests exit well and are left where they are.
-/

namespace DenoPackager

open DenoPackager.Action

/-! ### The files that belong to tests -/

/-- **The places of scripts** that files are compiled to in both passes. -/
def scriptPlaces (files : List TransformedFile) (dir : Place) : Set Place :=
  {q | ∃ pass ∈ [Pass.esm, .umd], ∃ f ∈ files, ∃ name, compiledName? ".js" f.path = some name ∧
    q = dir ++ pass.directory :: (Path.ofString name).parts}

namespace TestLauncher

variable {output : TransformOutput} {name : String} {pass other : Pass} {dir q : Place}

/-- The scripts of the test files of a transformed program. -/
def testScripts (output : TransformOutput) : List String :=
  scripts (output.test.files.map (·.path))

/-- **The places of the files that belong to tests** in a package. -/
def places (output : TransformOutput) (dir : Place) : List Place :=
  (artifacts output).map fun name => dir ++ (Path.ofString name).parts

/-- **The scripts of tests** name something below a directory. -/
theorem isBelow_of_mem_testScripts (hbelow : ∀ f ∈ output.allFiles, IsBelow f.path)
    (h : name ∈ testScripts output) : IsBelow name := by
  obtain ⟨path, hpath, rfl⟩ := List.mem_map.1 h
  obtain ⟨f, hf, rfl⟩ := List.mem_map.1 (List.mem_filter.1 hpath).1
  change IsBelow (Pass.esm.exportName f.path)
  exact Pass.isBelow_exportName (hbelow f (List.mem_append_right _ hf))

/-- **The files that belong to tests**: each script in the directories of both passes, and the
launcher. -/
theorem artifacts_eq (output : TransformOutput) : artifacts output =
    ((testScripts output).flatMap fun script => [Pass.esm, .umd].map fun pass =>
      "./" ++ pass.directory ++ "/" ++ script) ++ ["./" ++ fileName] := rfl

/-- Their places, pass by pass. -/
theorem places_eq (output : TransformOutput) (dir : Place) : places output dir =
    ((testScripts output).flatMap fun script => [Pass.esm, .umd].map fun pass =>
      dir ++ pass.directory :: (Path.ofString script).parts) ++ [dir ++ [fileName]] := by
  rw [places, artifacts_eq, List.map_append, List.map_flatMap]
  simp only [List.map_map, Function.comp_def, Pass.ofString_directory]
  exact congrArg _ (congrArg (fun parts => [dir ++ parts]) (by decide))

/-- All of them lie below the package. -/
theorem isDown_of_mem_artifacts (hbelow : ∀ f ∈ output.allFiles, IsBelow f.path)
    (h : name ∈ artifacts output) : IsDown name := by
  rw [artifacts_eq, List.mem_append, List.mem_singleton, List.mem_flatMap] at h
  rcases h with ⟨script, hscript, hname⟩ | rfl
  · obtain ⟨pass, -, rfl⟩ := List.mem_map.1 hname
    have hread := Pass.ofString_directory pass script
    refine ⟨by rw [hread], by simp [hread], ?_⟩
    rw [hread, List.mem_cons, not_or]
    exact ⟨Ne.symm pass.directory_shape.2.1, (isBelow_of_mem_testScripts hbelow hscript).up_not_mem⟩
  · exact ⟨by decide, by decide, by decide⟩

/-- The launcher does not stand in the directory of a pass. -/
theorem launcher_ne (pass : Pass) (parts : List String) :
    dir ++ pass.directory :: parts ≠ dir ++ [fileName] := by
  rw [Ne, List.append_cancel_left_eq, List.cons.injEq]
  exact fun heq => absurd heq.1 (by cases pass <;> decide)

/-- What stands at a script of a pass tells the pass and the script. -/
theorem place_inj {script : String} (hname : IsBelow name) (hscript : IsBelow script) :
    dir ++ pass.directory :: (Path.ofString name).parts =
        dir ++ other.directory :: (Path.ofString script).parts ↔ pass = other ∧ name = script := by
  rw [List.append_cancel_left_eq, List.cons.injEq, hname.parts_inj hscript]
  exact and_congr_left fun _ => ⟨by cases pass <;> cases other <;> decide, congrArg _⟩

/-- **Where files that belong to tests stand.** -/
theorem mem_places : q ∈ places output dir ↔ q = dir ++ [fileName] ∨
    ∃ script ∈ testScripts output, ∃ pass ∈ [Pass.esm, .umd],
      dir ++ pass.directory :: (Path.ofString script).parts = q := by
  rw [places_eq, List.mem_append, List.mem_flatMap, List.mem_singleton, or_comm]
  simp only [List.mem_map]

/-- A script stands at one of these places exactly if it is one of the tests. -/
theorem mem_places_iff (hbelow : ∀ f ∈ output.allFiles, IsBelow f.path) (hname : IsBelow name)
    (hpass : pass ∈ [Pass.esm, .umd]) :
    dir ++ pass.directory :: (Path.ofString name).parts ∈ places output dir ↔
      name ∈ testScripts output := by
  rw [mem_places, or_iff_right (launcher_ne pass _)]
  constructor
  · rintro ⟨script, hscript, other, -, heq⟩
    rw [place_inj (isBelow_of_mem_testScripts hbelow hscript) hname] at heq
    exact heq.2 ▸ hscript
  · exact fun hmem => ⟨name, hmem, pass, hpass, rfl⟩

/-- No place is named twice exactly if no script is named twice. -/
theorem nodup_places_iff (hbelow : ∀ f ∈ output.allFiles, IsBelow f.path) :
    (places output dir).Nodup ↔ (testScripts output).Nodup := by
  rw [places_eq, List.nodup_append, List.nodup_flatMap]
  constructor
  · rintro ⟨⟨-, hdisjoint⟩, -, -⟩
    refine hdisjoint.imp fun {script script'} hapart heq => ?_
    subst heq
    exact hapart List.mem_cons_self List.mem_cons_self
  · intro hnodup
    refine ⟨⟨fun script _ => by simp [Pass.directory], ?_⟩, by simp, ?_⟩
    · refine hnodup.imp_of_mem fun {script script'} hs hs' hne q hq hq' => ?_
      obtain ⟨pass, -, rfl⟩ := List.mem_map.1 hq
      obtain ⟨other, -, heq⟩ := List.mem_map.1 hq'
      rw [place_inj (isBelow_of_mem_testScripts hbelow hs')
        (isBelow_of_mem_testScripts hbelow hs)] at heq
      exact hne heq.2.symm
    · intro q hq r hr heq
      obtain ⟨script, -, hmem⟩ := List.mem_flatMap.1 hq
      obtain ⟨pass, -, rfl⟩ := List.mem_map.1 hmem
      exact launcher_ne pass _ (heq.trans (List.mem_singleton.1 hr))

/-- **A tidy test group**: its scripts are named as its modules are compiled, no two of them alike,
and none of them as a module of the program is compiled. -/
structure Tidy (output : TransformOutput) : Prop where
  nodup : (testScripts output).Nodup
  compiled : ∀ name, name ∈ testScripts output ↔
    ∃ f ∈ output.test.files, compiledName? ".js" f.path = some name
  apart : ∀ f ∈ output.main.files, ∀ name ∈ testScripts output,
    compiledName? ".js" f.path ≠ some name

/-- **Scripts of tidy tests** have the extension of a script. -/
theorem Tidy.script (h : Tidy output) {f : TransformedFile} (hf : f ∈ output.test.files)
    (hdeclaration : isDeclaration f.path = false) :
    ".js".toList <:+ (scriptPath f.path).toList := by
  have hmem : scriptPath f.path ∈ testScripts output :=
    List.mem_map_of_mem (List.mem_filter.2 ⟨List.mem_map_of_mem hf, by simp [hdeclaration]⟩)
  obtain ⟨g, -, hmade⟩ := (h.compiled _).1 hmem
  rw [compiledName?, Option.ite_none_left_eq_some, Option.some.injEq] at hmade
  rw [← hmade.2, String.toList_append]
  exact List.suffix_append _ _

/-- What ends as a declaration file does is one. -/
theorem isDeclaration_of_suffix (h : ".d.ts".toList.isSuffixOf name.toList = true) :
    isDeclaration name = true := by
  obtain ⟨before, htext⟩ := List.isSuffixOf_iff_suffix.1 h
  rw [isDeclaration, ← htext]
  clear htext
  induction before with
  | nil => rfl
  | cons c cs ih => rw [List.cons_append, Text.isDeclarationName, ih, Bool.or_true]

/-- **A test group of plain scripts** and declaration files, in a program of which no two modules
are compiled to one script. -/
structure Plain (output : TransformOutput) : Prop where
  plain : ∀ f ∈ output.test.files, isDeclaration f.path = false → (Path.ofString f.path).IsPlain
  declaration : ∀ f ∈ output.test.files, isDeclaration f.path = true →
    ".d.ts".toList.isSuffixOf f.path.toList = true
  nodup : (output.allFiles.filterMap fun f => compiledName? ".js" f.path).Nodup

namespace Plain

/-- Plain scripts are named as they are compiled. -/
theorem testScripts_eq (h : Plain output) (hbelow : ∀ f ∈ output.allFiles, IsBelow f.path) :
    testScripts output = output.test.files.filterMap fun f => compiledName? ".js" f.path := by
  rw [testScripts, scripts, List.filter_map, List.map_map, ← List.filterMap_eq_map,
    List.filterMap_filter]
  refine List.filterMap_congr fun f hf => ?_
  have hname := hbelow f (List.mem_append_right _ hf)
  simp only [Function.comp_apply]
  cases hdeclaration : isDeclaration f.path with
  | true =>
    rw [compiledName?, if_pos (h.declaration f hf hdeclaration)]
    rfl
  | false =>
    have hsuffix : ".d.ts".toList.isSuffixOf (Path.ofString f.path).name.toList = false := by
      rw [hname.isSuffixOf_name (by decide), ← Bool.not_eq_true]
      intro hsuffix
      rw [isDeclaration_of_suffix hsuffix] at hdeclaration
      exact absurd hdeclaration (by simp)
    exact ((Pass.compiledName?_eq_scriptPath_iff hname).2 ⟨hsuffix, h.plain f hf hdeclaration⟩).symm

/-- **Tests of plain scripts** are tidy. -/
theorem tidy (h : Plain output) (hbelow : ∀ f ∈ output.allFiles, IsBelow f.path) : Tidy output := by
  have hscripts := h.testScripts_eq hbelow
  have hnodup := h.nodup
  rw [TransformOutput.allFiles, List.filterMap_append, List.nodup_append, ← hscripts] at hnodup
  obtain ⟨-, htest, hapart⟩ := hnodup
  refine ⟨htest, fun name => ?_, fun f hf name hname hmade => ?_⟩
  · rw [hscripts, List.mem_filterMap]
  · exact hapart name (List.mem_filterMap.2 ⟨f, hf, hmade⟩) name hname rfl

end Plain

end TestLauncher

/-! ### Up to the end of the tests -/

namespace Build

open TestLauncher (Tidy testScripts places)

variable {b : BuildTools} {options : BuildOptions} {output : TransformOutput} {dir : Place}
  {w u v : Workspace} {emit : CompilerRun → String → ByteArray} {r : BuildResult}

/-- **A build up to the end of its tests**, which have exited well. -/
def throughTests (b : BuildTools) (options : BuildOptions) : Action TransformOutput := do
  let output ← prepare b options
  equip b options output
  let project ← checkedProject b options output
  let _ ← emitAll b options project
  log .info "Running tests..."
  Writer.write b.policy (options.outDir.child TestLauncher.fileName)
    (TestLauncher.code options.shim.importName output.test.entryPoints output.test.shimUsed)
  (packageManager options).run b.tools b.policy ["run", "test"]
  pure output

/-- What is left of a build after that, if the files of the tests are not kept. -/
def closing (b : BuildTools) (options : BuildOptions) (output : TransformOutput) :
    Action BuildResult := do
  Writer.removeAll b.policy options.outDir (TestLauncher.artifacts output)
  log .info "Complete!"
  let w ← get
  pure { outDir := options.outDir, written := w.written, warnings := output.warnings }

/-- **A build with tests** ends with the clean-up after them. -/
theorem build_eq_throughTests (htest : options.test = true)
    (hkeep : options.keepTestFiles = false) :
    build b options = throughTests b options >>= closing b options := by
  simp only [build, runTests, throughTests, closing, onlyIf, htest, hkeep,
    testArtifacts_of_test htest, bind_assoc, pure_bind, Bool.not_false, if_true]

/-- **What stands in the package after the tests**, of a build that was begun in `w`: what the
script passes have left, and the launcher. -/
structure Tested (b : BuildTools) (emit : CompilerRun → String → ByteArray) (options : BuildOptions)
    (output : TransformOutput) (dir : Place) (w u : Workspace) : Prop where
  package : u.Leads options.outDir dir
  below : ∀ f ∈ output.allFiles, IsBelow f.path
  allowed : b.policy.allowsWrite u.cwd options.outDir = true
  names_launcher :
    u.Names (options.outDir.child TestLauncher.fileName) (dir ++ [TestLauncher.fileName])
  launcher : (u.tree.file? (dir ++ [TestLauncher.fileName])).isSome
  passes : ∀ pass ∈ [Pass.esm, .umd],
    ∃ run, pass.Leaves emit options.outDir dir output.allFiles w u run

/-- **What a build leaves up to the end of its tests.** -/
theorem of_run_throughTests (htools : b.tools.Compiles emit) (htransformer : b.transformer = none)
    (hw : w.Grounded) (hproper : options.outDir.Proper)
    (h : (throughTests b options).run w = (.ok output, u)) :
    ∃ dir, Tested b emit options output dir w u := by
  obtain ⟨output', u₁, hprepare, h₁⟩ := of_run_bind_eq_ok h
  obtain ⟨_, u₂, hequip, h₂⟩ := of_run_bind_eq_ok h₁
  obtain ⟨project, u₃, hcheck, h₃⟩ := of_run_bind_eq_ok h₂
  obtain ⟨results, u₄, hemit, h₄⟩ := of_run_bind_eq_ok h₃
  obtain ⟨_, u₅, hlog, h₅⟩ := of_run_bind_eq_ok h₄
  obtain ⟨_, u₆, hwrite, h₆⟩ := of_run_bind_eq_ok h₅
  obtain ⟨_, u₇, hrun, hend⟩ := of_run_bind_eq_ok h₆
  rw [run_pure, Prod.mk.injEq, Except.ok.injEq] at hend
  obtain ⟨rfl, rfl⟩ := hend
  obtain ⟨hsame, hallowed, tests, c, -, hc, hout⟩ := of_run_prepare htransformer hprepare
  obtain ⟨mainSeen, testSeen, hcollected⟩ := Transform.collect_eq_ok_iff.1 hc
  obtain ⟨hbelow, hnodup⟩ := hcollected.paths_adapt hw.proper.rooted w.cwd.isAbsolute_rooted
  rw [← hout] at hbelow hnodup
  obtain ⟨dir, manifest, hemission⟩ :=
    emission htools hw hproper hbelow hnodup hsame hequip hcheck hemit
  have hlogged : u₄.SameOutside ∅ u₅ := (still_log _ _).touches _ _ hlog
  have hrun' : u₆.SameOutside ∅ u₇ := (PackageManager.still_run _ _ _ _).touches _ _ hrun
  obtain ⟨hnames, hwrote⟩ := Writer.wrote_below
    ((hemission.touches.trans hlogged.of_empty).grounded hw) (hlogged.leads hemission.package)
    (by simp) (by decide) hwrite
  have hend : u₄.SameOutside {q | q ∈ [dir ++ [TestLauncher.fileName]]} u₇ :=
    (hlogged.of_empty.trans hwrote.sameOutside).trans hrun'.of_empty
  have hcwd : u₇.cwd = w.cwd := hend.cwd.trans hemission.touches.cwd
  refine ⟨dir, hend.leads hemission.package, hbelow, ?_, hrun'.names hnames, ?_, ?_⟩
  · rwa [hcwd, ← Path.ofString_text hproper]
  · rw [hrun'.tree.files _ (Set.notMem_empty _),
      hwrote.tree.file?_eq (List.mem_singleton_self _) (by simp)]
    rfl
  · intro pass hpass
    have hall : pass ∈ Pass.all options.declaration := by
      cases options.declaration <;> revert pass <;> decide
    obtain ⟨run, hleaves⟩ := hemission.passes pass hall
    refine ⟨run, hleaves.before hbelow hend fun q _ hq => ?_⟩
    rw [Set.mem_ofPred_eq, List.mem_singleton, List.append_cancel_left_eq] at hq
    exact absurd (List.cons.inj hq).1 (by cases pass <;> decide)

namespace Tested

/-- Each script of a pass is there under the name that it was compiled to. -/
theorem script (h : Tested b emit options output dir w u) {pass : Pass}
    (hpass : pass ∈ [Pass.esm, .umd]) {f : TransformedFile} (hf : f ∈ output.allFiles)
    {name : String} (hname : compiledName? ".js" f.path = some name) :
    IsBelow name ∧ (u.tree.file? (dir ++ pass.directory :: (Path.ofString name).parts)).isSome ∧
      u.Names { options.outDir with
          parts := options.outDir.parts ++ pass.directory :: (Path.ofString name).parts }
        (dir ++ pass.directory :: (Path.ofString name).parts) := by
  obtain ⟨run, hleaves⟩ := h.passes pass hpass
  have hmade : compiledName? pass.extension f.path = some name := by
    rw [List.mem_cons, List.mem_singleton] at hpass
    rcases hpass with rfl | rfl <;> exact hname
  obtain ⟨hnames, g, -, -, text, -, hfile⟩ := hleaves.emitted f hf name hmade
  exact ⟨Pass.isBelow_compiled (h.below f hf) hmade, Option.isSome_iff_exists.2 ⟨_, hfile⟩, hnames⟩

end Tested

/-! ### The clean-up -/

/-- **A package that was cleaned** of its tests, which it held in `u`: the launcher and the scripts
of the tests are gone, those of the program are there, and nothing else has changed. -/
structure CleanedUp (output : TransformOutput) (dir : Place) (u v : Workspace) : Prop where
  launcher : v.tree.file? (dir ++ [TestLauncher.fileName]) = none
  tests : ∀ q ∈ scriptPlaces output.test.files dir, v.tree.file? q = none
  program : ∀ q ∈ scriptPlaces output.main.files dir, (v.tree.file? q).isSome
  kept : ∀ q ∉ scriptPlaces output.test.files dir, q ≠ dir ++ [TestLauncher.fileName] →
    v.tree.file? q = u.tree.file? q

/-- What is closed was cleaned up before. -/
theorem of_run_closing (h : (closing b options output).run u = (.ok r, v)) :
    ∃ x, (Writer.removeAll b.policy options.outDir (TestLauncher.artifacts output)).run u =
      (.ok (), x) ∧ x.SameFiles v := by
  obtain ⟨_, x, hremove, h₁⟩ := of_run_bind_eq_ok h
  obtain ⟨_, y, hlog, h₂⟩ := of_run_bind_eq_ok h₁
  obtain ⟨_, z, hget, hend⟩ := of_run_bind_eq_ok h₂
  exact ⟨x, hremove, ((still_log _ _ _ _ _ hlog).trans (still_get _ _ _ hget)).trans
    (still_pure _ _ _ _ hend)⟩

/-- What was cleaned up is closed. -/
theorem run_closing
    (h : ((Writer.removeAll b.policy options.outDir (TestLauncher.artifacts output)).run u).1 =
      .ok ()) : ∃ r v, (closing b options output).run u = (.ok r, v) := by
  match hx : (Writer.removeAll b.policy options.outDir (TestLauncher.artifacts output)).run u with
  | (_, x) =>
    rw [hx] at h
    obtain rfl : _ = Except.ok () := h
    exact ⟨_, _, run_bind_of_ok hx⟩

/-- **After the clean-up**, the files that belong to the tests are gone, and each of them was there
before. -/
theorem Tested.removed (h : Tested b emit options output dir w u) (hproper : options.outDir.Proper)
    (hrun : (closing b options output).run u = (.ok r, v)) : u.Removed (places output dir) v := by
  obtain ⟨x, hremove, hsame⟩ := of_run_closing hrun
  exact (Writer.of_run_removeAll hproper h.package
    (fun name hname => TestLauncher.isDown_of_mem_artifacts h.below hname) hremove).before hsame

/-- **Tidy tests are cleaned up.** -/
theorem Tested.cleanedUp (h : Tested b emit options output dir w u)
    (hremoved : u.Removed (places output dir) v) (htidy : Tidy output) :
    CleanedUp output dir u v where
  launcher := hremoved.gone _ (TestLauncher.mem_places.2 (.inl rfl))
  tests := by
    rintro q ⟨pass, hpass, f, hf, name, hname, rfl⟩
    exact hremoved.gone _ (TestLauncher.mem_places.2
      (.inr ⟨name, (htidy.compiled name).2 ⟨f, hf, hname⟩, pass, hpass, rfl⟩))
  program := by
    rintro q ⟨pass, hpass, f, hf, name, hname, rfl⟩
    obtain ⟨hbelow, hthere, -⟩ := h.script hpass (List.mem_append_left _ hf) hname
    rwa [hremoved.same.tree.files]
    intro hmem
    exact htidy.apart f hf name
      ((TestLauncher.mem_places_iff h.below hbelow hpass).1 hmem) hname
  kept := by
    intro q hq hne
    refine hremoved.same.tree.files q fun hmem => ?_
    obtain ⟨script, hscript, pass, hpass, rfl⟩ := (TestLauncher.mem_places.1 hmem).resolve_left hne
    obtain ⟨f, hf, hname⟩ := (htidy.compiled script).1 hscript
    exact hq ⟨pass, hpass, f, hf, script, hname, rfl⟩

/-- **Tests that are cleaned up** are tidy. -/
theorem Tested.tidy (h : Tested b emit options output dir w u)
    (hremoved : u.Removed (places output dir) v) (hclean : CleanedUp output dir u v) :
    Tidy output where
  nodup := (TestLauncher.nodup_places_iff h.below).1 hremoved.nodup
  compiled := by
    intro name
    have hesm : Pass.esm ∈ [Pass.esm, .umd] := List.mem_cons_self
    constructor
    · intro hname
      have hmem : dir ++ Pass.esm.directory :: (Path.ofString name).parts ∈ places output dir :=
        TestLauncher.mem_places.2 (.inr ⟨name, hname, .esm, hesm, rfl⟩)
      -- it was there, and is gone: the clean-up was right to remove it
      have hplace : dir ++ Pass.esm.directory :: (Path.ofString name).parts ∈
          scriptPlaces output.test.files dir := by
        by_contra hnot
        have hkept := hclean.kept _ hnot (TestLauncher.launcher_ne _ _)
        have hthere := hremoved.there _ hmem
        rw [← hkept, hremoved.gone _ hmem] at hthere
        exact absurd hthere (by simp)
      obtain ⟨pass, hpass, f, hf, made, hmade, heq⟩ := hplace
      have hbelow := (h.script hpass (List.mem_append_right _ hf) hmade).1
      rw [TestLauncher.place_inj (TestLauncher.isBelow_of_mem_testScripts h.below hname)
        hbelow] at heq
      exact ⟨f, hf, heq.2 ▸ hmade⟩
    · rintro ⟨f, hf, hname⟩
      obtain ⟨hbelow, hthere, -⟩ := h.script hesm (List.mem_append_right _ hf) hname
      by_contra hnot
      rw [← TestLauncher.mem_places_iff h.below hbelow hesm] at hnot
      rw [← hremoved.same.tree.files _ hnot,
        hclean.tests _ ⟨.esm, hesm, f, hf, name, hname, rfl⟩] at hthere
      exact absurd hthere (by simp)
  apart := by
    intro f hf name hname hmade
    have hthere := hclean.program _ ⟨.esm, by simp, f, hf, name, hmade, rfl⟩
    rw [hremoved.gone _ (TestLauncher.mem_places.2
      (.inr ⟨name, hname, .esm, by simp, rfl⟩))] at hthere
    exact absurd hthere (by simp)

/-- **Tidy tests can be cleaned up.** -/
theorem Tested.run_closing (h : Tested b emit options output dir w u)
    (hproper : options.outDir.Proper) (htidy : Tidy output) :
    ∃ r v, (closing b options output).run u = (.ok r, v) := by
  have hdown : ∀ name ∈ TestLauncher.artifacts output, IsDown name := fun name hname =>
    TestLauncher.isDown_of_mem_artifacts h.below hname
  have hthere : ∀ name ∈ TestLauncher.artifacts output,
      u.Names (options.outDir.joinText name) (dir ++ (Path.ofString name).parts) ∧
        (u.tree.file? (dir ++ (Path.ofString name).parts)).isSome := by
    intro name hname
    rw [(hdown name hname).joinText]
    rw [TestLauncher.artifacts_eq, List.mem_append, List.mem_singleton, List.mem_flatMap] at hname
    rcases hname with ⟨script, hscript, hname⟩ | rfl
    · obtain ⟨pass, hpass, rfl⟩ := List.mem_map.1 hname
      obtain ⟨f, hf, hmade⟩ := (htidy.compiled script).1 hscript
      rw [Pass.ofString_directory]
      exact (h.script hpass (List.mem_append_right _ hf) hmade).2.symm
    · rw [show (Path.ofString ("./" ++ TestLauncher.fileName)).parts = [TestLauncher.fileName] by
        decide]
      exact ⟨h.names_launcher, h.launcher⟩
  exact Build.run_closing (Writer.run_removeAll hproper h.package h.allowed hdown
    ((TestLauncher.nodup_places_iff h.below).2 htidy.nodup)
    (fun name hname => (hthere name hname).1) fun name hname => (hthere name hname).2)

/-- **After which tests the clean-up succeeds and is complete**, of a build of modules that are
transformed in files, with a compiler that emits one file for each source: after those of tidy test
groups. Plain scripts are tidy, and a script with the extension of another language is not. -/
theorem clean_up (htools : b.tools.Compiles emit) (htransformer : b.transformer = none)
    (hw : w.Grounded) (hproper : options.outDir.Proper) (htest : options.test = true)
    (hkeep : options.keepTestFiles = false) (h : (throughTests b options).run w = (.ok output, u)) :
    (∃ dir, Tested b emit options output dir w u ∧
      ((∃ r v, (build b options).run w = (.ok r, v) ∧ CleanedUp output dir u v) ↔ Tidy output)) ∧
    (TestLauncher.Plain output → Tidy output) ∧
    (Tidy output → ∀ f ∈ output.test.files, TestLauncher.isDeclaration f.path = false →
      ".js".toList <:+ (TestLauncher.scriptPath f.path).toList) := by
  obtain ⟨dir, htested⟩ := of_run_throughTests htools htransformer hw hproper h
  refine ⟨⟨dir, htested, ?_⟩, fun hplain => hplain.tidy htested.below,
    fun htidy f hf hdeclaration => htidy.script hf hdeclaration⟩
  rw [build_eq_throughTests htest hkeep, run_bind_of_ok h]
  constructor
  · rintro ⟨r, v, hrun, hclean⟩
    exact htested.tidy (htested.removed hproper hrun) hclean
  · intro htidy
    obtain ⟨r, v, hrun⟩ := htested.run_closing hproper htidy
    exact ⟨r, v, hrun, htested.cleanedUp (htested.removed hproper hrun) htidy⟩

/-! ### Tests that are left where they are -/

/-- Sorting places in order. -/
theorem mergeSort_namesLe (ps : List Place) :
    ps.mergeSort Path.namesLe = ps.insertionSort fun a b => Path.namesLe a b = true := by
  have htotal : Std.Total fun a b => Path.namesLe a b = true :=
    ⟨fun a b => by simpa using Path.namesLe_total a b⟩
  have htrans : IsTrans Place fun a b => Path.namesLe a b = true :=
    ⟨fun _ _ _ => Path.namesLe_trans⟩
  have hantisymm : Std.Antisymm fun a b => Path.namesLe a b = true :=
    ⟨fun _ _ => Path.namesLe_antisymm⟩
  rw [← List.mergeSort_eq_insertionSort fun a b => Path.namesLe a b = true]
  simp

/-- A module of a program. -/
def mainModule : Transform.Module where
  path := .ofString "/p/mod.ts"
  text := "export const a = 1;\n"

/-- A test of it, in a file of this name. -/
def testModule (name : String) : Transform.Module where
  path := .ofString ("/p/" ++ name)
  text := "export const b = 2;\n"

/-- A workspace with these modules. -/
def testWorkspace (name : String) : Workspace :=
  .fresh (.ofString "/p") <|
    ((FileTree.empty.insert ["p"] .directory).insert ["p", "mod.ts"]
      (.file mainModule.text.toUTF8)).insert ["p", name] (.file (testModule name).text.toUTF8)

/-- The first module is the only entry point of a package that is tested. -/
def testOptions : BuildOptions :=
  { soleOptions with entryPoints := [.bare "./mod.ts"], test := true }

/-- A build that is given its program is the same up to the tests. -/
theorem run_throughTests_given (n : ℕ) (htransformer : b.transformer = none)
    (h : (programWithin n b options w).isSome) :
    (throughTests b options).run w = (throughTests (given n b options w) options).run w := by
  rw [throughTests, run_bind, throughTests, run_bind, run_prepare_given n htransformer h]
  rfl

/-- The build of a module and a test of it, given its program. -/
def testGiven (name : String) : BuildTools :=
  given 1 soleBuild testOptions (testWorkspace name)

/-- The tests are run in it as in the build. -/
theorem run_throughTests_tests {name : String} (h : name ∈ ["a.test.ts", "a.test.mjs"]) :
    (throughTests soleBuild testOptions).run (testWorkspace name) =
      (throughTests (testGiven name) testOptions).run (testWorkspace name) := by
  refine run_throughTests_given 1 rfl ?_
  revert name
  decide +kernel

/-- **What is seen of a clean-up**: whether it stops at a file that is not there, and whether the
launcher and the scripts of a test are there after it. -/
def cleanUpSeen (r : Except Failure TransformOutput × Workspace) : Option (Bool × List Bool) :=
  match r with
  | (.error _, _) => none
  | (.ok output, u) =>
    match (closing soleBuild testOptions output).run u with
    | (result, v) => some (result matches .error (.fault .notFound),
      [["test_runner.js"], ["esm", "a.test.js"], ["umd", "a.test.js"]].map fun q =>
        v.tree.isFileAt (["p", "npm"] ++ q))

/-- The clean-up is seen to end with a plain script, and to stop with another one. -/
theorem cleanUpSeen_tests :
    cleanUpSeen ((throughTests (testGiven "a.test.ts") testOptions).run
        (testWorkspace "a.test.ts")) = some (false, [false, false, false]) ∧
    cleanUpSeen ((throughTests (testGiven "a.test.mjs") testOptions).run
        (testWorkspace "a.test.mjs")) = some (true, [true, true, true]) := by
  have hall : Pass.all testOptions.declaration = [.esm, .umd] := rfl
  -- merge sort does not evaluate, insertion sort does
  have hsort (ps : List String) := List.mergeSort_eq_insertionSort (fun a b => a ≤ b) ps
  simp only [throughTests, emitAll, Pass.emitAll, hall, Pass.runAll, Pass.run, Program.emit]
  unfold Program.emitFrom
  simp only [Compiler.run]
  unfold Compiler.stagedRun
  simp only [Compiler.stage, FileTree.filesBelow, mergeSort_namesLe, hsort]
  decide +kernel

theorem clean_up_tests : ∃ output u,
    (throughTests soleBuild testOptions).run (testWorkspace "a.test.ts") = (.ok output, u) ∧
    (∃ dir, Tested soleBuild echo testOptions output dir (testWorkspace "a.test.ts") u ∧
      ((∃ r v, (build soleBuild testOptions).run (testWorkspace "a.test.ts") = (.ok r, v) ∧
        CleanedUp output dir u v) ↔ Tidy output)) ∧
    (TestLauncher.Plain output → Tidy output) ∧
    (Tidy output → ∀ f ∈ output.test.files, TestLauncher.isDeclaration f.path = false →
      ".js".toList <:+ (TestLauncher.scriptPath f.path).toList) := by
  have hseen := cleanUpSeen_tests.1
  rw [← run_throughTests_tests (by decide)] at hseen
  match hrun : (throughTests soleBuild testOptions).run (testWorkspace "a.test.ts") with
  | (.ok output, u) =>
    exact ⟨output, u, rfl, clean_up echoTools_compiles rfl
      ⟨.ofString "/p", by decide, by decide⟩ (.ofString "./npm") rfl rfl hrun⟩
  | (.error e, u) =>
    rw [hrun] at hseen
    exact absurd hseen (by simp [cleanUpSeen])

/-- A clean-up that is seen to stop came after tests that have exited well. -/
theorem of_cleanUpSeen {r : Except Failure TransformOutput × Workspace} {there : List Bool}
    (h : cleanUpSeen r = some (true, there)) :
    ∃ output u v, r = (.ok output, u) ∧
      (closing soleBuild testOptions output).run u = (.error (.fault .notFound), v) ∧
      ([["test_runner.js"], ["esm", "a.test.js"], ["umd", "a.test.js"]].map fun q =>
        v.tree.isFileAt (["p", "npm"] ++ q)) = there := by
  rcases r with ⟨_ | output, u⟩
  · simp [cleanUpSeen] at h
  · match hclose : (closing soleBuild testOptions output).run u with
    | (result, v) =>
      simp only [cleanUpSeen, hclose, Option.some.injEq, Prod.mk.injEq] at h
      obtain ⟨hfault, hthere⟩ := h
      split at hfault
      · exact ⟨output, u, v, rfl, hclose, hthere⟩
      · exact absurd hfault (by simp)

/-- **Tests that are left where they are**: the tests exit well, the clean-up stops at a file that
is not there, and the launcher and both scripts of the test are still there. -/
theorem leftover_tests : echoTools.Compiles echo ∧ ∃ output u v,
    (throughTests soleBuild testOptions).run (testWorkspace "a.test.mjs") = (.ok output, u) ∧
    (build soleBuild testOptions).run (testWorkspace "a.test.mjs") =
      (.error (.fault .notFound), v) ∧
    v.tree.isFileAt ["p", "npm", "test_runner.js"] = true ∧
    v.tree.isFileAt ["p", "npm", "esm", "a.test.js"] = true ∧
    v.tree.isFileAt ["p", "npm", "umd", "a.test.js"] = true := by
  have hseen := cleanUpSeen_tests.2
  rw [← run_throughTests_tests (by decide)] at hseen
  obtain ⟨output, u, v, hrun, hclose, hthere⟩ := of_cleanUpSeen hseen
  refine ⟨echoTools_compiles, output, u, v, hrun, ?_, by simpa using hthere⟩
  rw [build_eq_throughTests rfl rfl, run_bind_of_ok hrun, hclose]

end Build

end DenoPackager
