import DenoPackager.Proofs.Files.Members
import DenoPackager.Proofs.Files.Package

/-!
# The exports of a package

The manifest names a file in the directory of each pass for every entry point, and the passes leave
files there under names of their own. The two agree for plain scripts: the file that is named is the
one that the module is compiled to. For any other module, one in `extra.mjs` for instance, the
manifest names a file that no pass leaves, and the build succeeds all the same.

## Main definitions

* `Build.IsCompiled`: a file of the package that a module was compiled to.
* `Build.Exported`: what is found where the manifest says that a module is exported.

## Main results

* `Pass.compiledName?_eq_exportName_iff`: which modules are compiled to the file that is named for
  them.
* `Build.exports_emitted`: what is found at the exports of a package after a build.
-/

namespace DenoPackager

open DenoPackager.Action
open DenoPackager.Path (ProperPart)

/-! ### Names in the manifest -/

/-- The extension of a script is taken off. -/
theorem Manifest.stem_append (s : String) : stem (s ++ ".js") = s := by
  rw [stem, String.length_append, show ".js".length = 3 from rfl, Nat.add_sub_cancel,
    String.toList_append, ← String.length_toList, List.take_left, String.ofList_toList]

namespace Pass

variable {pass : Pass} {name : String}

/-- **The name in the manifest** names something below the directory of the pass. -/
theorem isBelow_exportName (h : IsBelow name) : IsBelow (pass.exportName name) := by
  obtain ⟨dirs, last, -, hproper, hup, htext⟩ := h.exists_last
  rw [List.mem_append, List.mem_singleton, not_or] at hup
  have hscript : IsBelow (EntryPoint.scriptPath name) := by
    rw [htext, scriptPath_text]
    refine isBelow_text (Transform.properPart_concat hproper (properPart_scriptPath
      (hproper last (List.mem_append_right _ List.mem_cons_self)))) (by simp) ?_
    rw [List.mem_append, List.mem_singleton, not_or]
    exact ⟨hup.1, fun heq => hup.2 (scriptPath_eq_up heq.symm).symm⟩
  cases pass with
  | declarations => exact hscript.of_prefix (List.take_prefix _ _) (by decide) (by decide)
  | esm => exact hscript
  | umd => exact hscript

/-- What is named for a module is what it is compiled to exactly if its last name is named so. -/
theorem compiledName?_eq_scriptPath_iff (h : IsBelow name) :
    compiledName? ".js" name = some (EntryPoint.scriptPath name) ↔
      ".d.ts".toList.isSuffixOf (Path.ofString name).name.toList = false ∧
        (Path.ofString name).IsPlain := by
  obtain ⟨dirs, last, hparts, hproper, -, htext⟩ := h.exists_last
  have hlast := hproper last (List.mem_append_right _ List.mem_cons_self)
  have hname : (Path.ofString name).name = last := by
    rw [Path.name, hparts, List.getLast?_concat]
    rfl
  rw [Path.IsPlain, hname, ← scriptPath_eq_stemName_iff]
  conv_lhs => rw [htext, compiledName?_text hlast, scriptPath_text, Option.ite_none_left_eq_some,
    Option.some.injEq, Bool.not_eq_true]
  refine and_congr_right fun _ => ?_
  rw [Transform.text_eq_iff .none [] (Transform.properPart_concat hproper
    (properPart_stemName_append hlast (by decide) (by decide)))
    (Transform.properPart_concat hproper (properPart_scriptPath hlast)),
    eq_comm (a := stemName last ++ _)]
  exact and_iff_right rfl

/-- **Which modules are compiled to the file that is named for them** in a pass that emits scripts:
plain scripts. -/
theorem compiledName?_eq_exportName_iff (h : IsBelow name) (hpass : pass ≠ .declarations) :
    compiledName? pass.extension name = some (pass.exportName name) ↔
      ".d.ts".toList.isSuffixOf (Path.ofString name).name.toList = false ∧
        (Path.ofString name).IsPlain := by
  cases pass with
  | declarations => exact absurd rfl hpass
  | esm => exact compiledName?_eq_scriptPath_iff h
  | umd => exact compiledName?_eq_scriptPath_iff h

/-- **Plain scripts are compiled to what is named for them**, declarations included. -/
theorem compiledName?_eq_exportName (h : IsBelow name)
    (hdeclarations : ".d.ts".toList.isSuffixOf (Path.ofString name).name.toList = false)
    (hplain : (Path.ofString name).IsPlain) :
    compiledName? pass.extension name = some (pass.exportName name) := by
  have hscript := (compiledName?_eq_scriptPath_iff h).2 ⟨hdeclarations, hplain⟩
  cases pass with
  | declarations =>
    rw [compiledName?, Option.ite_none_left_eq_some, Option.some.injEq] at hscript
    rw [compiledName?, if_neg hscript.1, exportName, ← hscript.2, Manifest.stem_append]
    rfl
  | esm => exact hscript
  | umd => exact hscript

/-- **Where the path in the manifest leads**: below the directory of the pass. -/
theorem joinText_exportPath (package : Path) (pass : Pass) (name : String) :
    package.joinText (pass.exportPath name) =
      { package with
        parts :=
          package.parts ++ pass.directory :: (Path.ofString (pass.exportName name)).parts } := by
  rw [Path.joinText, exportPath, ofString_directory, Path.join]

end Pass

/-! ### What is found at an export -/

namespace Build

variable {b : BuildTools} {options : BuildOptions} {dir : Place} {w v : Workspace} {pass : Pass}
  {files : List TransformedFile} {f : TransformedFile} {emit : CompilerRun → String → ByteArray}

/-- **A file of the package that a module was compiled to** in a pass: the compiler got the module
from the pass, and what it made of it is read back from the file. -/
def IsCompiled (emit : CompilerRun → String → ByteArray) (options : BuildOptions) (v : Workspace)
    (pass : Pass) (f : TransformedFile) (path : String) : Prop :=
  ∃ run text, .compiled run ∈ v.events ∧ run.phase = .pass pass ∧
    (f.path ≠ "tsconfig.json" →
      (f.path, pass.prepare (sourcePath options.outDir f.path) f.text) ∈ run.files) ∧
      FileTree.textOfBytes (emit run f.path) = .ok text ∧
        v.tree.readBytes v.cwd (options.outDir.joinText path) = .ok text.toUTF8

/-- **What is found where the manifest says that a module is exported**, after a build that was begun
in `w`. If modules are compiled to that place, one of them is found there. If none is, nothing that
was not there before is found there, apart from the small manifest of the pass. Plain scripts are
compiled to that place, and in passes that emit scripts no other modules are. -/
structure Exported (emit : CompilerRun → String → ByteArray) (options : BuildOptions)
    (files : List TransformedFile) (dir : Place) (w v : Workspace) (pass : Pass)
    (f : TransformedFile) : Prop where
  plain : ".d.ts".toList.isSuffixOf (Path.ofString f.path).name.toList = false →
    (Path.ofString f.path).IsPlain →
      compiledName? pass.extension f.path = some (pass.exportName f.path)
  plain_of_script : pass ≠ .declarations →
    compiledName? pass.extension f.path = some (pass.exportName f.path) →
      ".d.ts".toList.isSuffixOf (Path.ofString f.path).name.toList = false ∧
        (Path.ofString f.path).IsPlain
  found : ∀ g ∈ files, compiledName? pass.extension g.path = some (pass.exportName f.path) →
    ∃ g ∈ files, compiledName? pass.extension g.path = some (pass.exportName f.path) ∧
      IsCompiled emit options v pass g (pass.exportPath f.path)
  missing : (∀ g ∈ files, compiledName? pass.extension g.path ≠ some (pass.exportName f.path)) →
    pass.exportName f.path ≠ "package.json" → ∀ content,
      v.tree.readBytes v.cwd (options.outDir.joinText (pass.exportPath f.path)) = .ok content →
        w.tree.file? (dir ++ pass.directory :: (Path.ofString (pass.exportName f.path)).parts) =
          some content

/-- **A pass leaves** at an export what is compiled to it. -/
theorem Exported.of_leaves {run : CompilerRun} (hdir : v.Leads options.outDir dir)
    (hbelow : ∀ f ∈ files, IsBelow f.path) (hf : f ∈ files)
    (h : pass.Leaves emit options.outDir dir files w v run) :
    Exported emit options files dir w v pass f where
  plain hdeclarations hplain := Pass.compiledName?_eq_exportName (hbelow f hf) hdeclarations hplain
  plain_of_script hpass hcompiled :=
    (Pass.compiledName?_eq_exportName_iff (hbelow f hf) hpass).1 hcompiled
  found := by
    intro g hg hcompiled
    obtain ⟨hnames, k, hk, hkcompiled, text, htext, hfile⟩ := h.emitted g hg _ hcompiled
    refine ⟨k, hk, hkcompiled, run, text, h.compiled, h.phase, h.sources k hk, htext, ?_⟩
    rw [Pass.joinText_exportPath]
    exact hnames.readBytes_eq_ok_iff.2 hfile
  missing := by
    intro hnone hmanifest content hread
    have hname : IsBelow (pass.exportName f.path) := Pass.isBelow_exportName (hbelow f hf)
    have hup : Path.up ∉ pass.directory :: (Path.ofString (pass.exportName f.path)).parts := by
      rw [List.mem_cons, not_or]
      exact ⟨Ne.symm pass.directory_shape.2.1, hname.up_not_mem⟩
    rw [Pass.joinText_exportPath] at hread
    rw [← hdir.file?_of_readBytes (by simp) hup hread]
    refine (h.kept _ (fun hparts => hmanifest ?_) fun g hg made hmade hparts => ?_).symm
    · rw [hname.eq_text, hparts]
      decide
    · rw [(Pass.isBelow_compiled (hbelow g hg) hmade).parts_inj hname] at hparts
      exact hnone g hg (hparts ▸ hmade)

/-- **How an entry point is exported**: its module is one of the program, its export has a condition
for each pass, and the members that name the package's own export name the same paths. -/
structure ExportedEntry (emit : CompilerRun → String → ByteArray) (options : BuildOptions)
    (c : Transform.Collection) (dir : Place) (manifest exports : Table Key) (w v : Workspace)
    (entry : EntryPoint) (key : Key) (m : Transform.Module) : Prop where
  key_eq : entry.name.key = .ok key
  path_eq : Transform.entryPath w.cwd.rooted entry.path = .ok m.path
  loaded : Transform.load w.tree w.cwd m.path = .ok m
  main : m ∈ c.main
  condition : ∃ conditions : Members, exports.get? key = some (.obj conditions) ∧
    ∀ pass ∈ Pass.all options.declaration, conditions.get? pass.condition =
      some (.str (pass.exportPath (c.layout.outPath m.path)))
  member : key = .text EntryPoint.rootName → ∀ pass ∈ Pass.all options.declaration,
    manifest.get? (.text pass.member) = some (.str (pass.exportPath (c.layout.outPath m.path)))
  exported : ∀ pass ∈ Pass.all options.declaration,
    Exported emit options (c.adapt w.cwd (request options [])).allFiles dir w v pass
      (Transform.adaptModule w.cwd c.layout (request options []) m).1

/-- **What is found at the exports of a package** after a build of modules that are transformed in
files, with a compiler that emits one file for each source, and without tests. -/
theorem exports_emitted (htools : b.tools.Compiles emit) (htransformer : b.transformer = none)
    (hw : w.Grounded) (hproper : options.outDir.Proper) (htest : options.test = false)
    (hexports : options.package.get? (.text "exports") = none)
    (hmembers : ∀ pass : Pass, options.package.get? (.text pass.member) = none) {r : BuildResult}
    (hrun : (build b options).run w = (.ok r, v)) :
    ∃ (c : Transform.Collection) (dir : Place) (manifest exports : Table Key),
      Transform.collect w.tree w.cwd w.cwd.rooted (request options []) = .ok c ∧
      v.Leads options.outDir dir ∧
      v.tree.readBytes v.cwd (options.outDir.child "package.json") =
        .ok (Manifest.fileText manifest).toUTF8 ∧
      manifest.get? (.text "exports") = some (.obj exports.toMembers) ∧
      ∀ entry ∈ EntryPoint.ofSpecs options.entryPoints, ∃ key m,
        ExportedEntry emit options c dir manifest exports w v entry key m := by
  obtain ⟨output, project, results, u, x, y, z, z', hprepare, hequip, hcheck, hemit, htests, hend⟩ :=
    of_run_build hrun
  rw [htest, onlyIf, if_neg (by decide), run_pure, Prod.mk.injEq] at htests
  obtain ⟨-, rfl⟩ := htests
  obtain ⟨hsame, -, tests, c, hnone, hc, hout⟩ := of_run_prepare htransformer hprepare
  obtain rfl := hnone htest
  subst hout
  obtain ⟨mainSeen, testSeen, h⟩ := Transform.collect_eq_ok_iff.1 hc
  obtain ⟨hbelow, hnodup⟩ := h.paths_adapt hw.proper.rooted w.cwd.isAbsolute_rooted
  obtain ⟨dir, manifest, hemission⟩ :=
    emission htools hw hproper hbelow hnodup hsame hequip hcheck hemit
  have hlater : z.SameOutside ∅ v := hend.sameOutside
  have hdir := hlater.leads hemission.package
  obtain ⟨hlength, exports, hget, hentries⟩ :=
    Manifest.exports_of_build hemission.manifest_eq hexports hmembers
  refine ⟨c, dir, manifest, exports, hc, hdir, ?_, hget, fun entry hentry => ?_⟩
  · rw [(hlater.names hemission.names_manifest).readBytes_eq_ok_iff,
      hlater.tree.files _ (Set.notMem_empty _), hemission.file_manifest]
  · have hlength' : c.mainEntries.length = (EntryPoint.ofSpecs options.entryPoints).length := by
      rw [← hlength]
      exact (List.length_map _).symm
    have hfirst := List.map_fst_zip (Nat.le_of_eq hlength'.symm)
    obtain ⟨⟨entry, path⟩, hzip, rfl⟩ := List.mem_map.1 (hfirst.symm ▸ hentry)
    have hpath : Transform.entryPath w.cwd.rooted entry.path = .ok path :=
      List.forall₂_zip (List.forall₂_map_left_iff.1 h.mainEntries) hzip
    obtain ⟨m, hm, rfl⟩ := h.mainEntry (List.of_mem_zip hzip).2
    have hout : (entry, c.layout.outPath m.path) ∈ (EntryPoint.ofSpecs options.entryPoints).zip
        (c.adapt w.cwd (request options [])).main.entryPoints := by
      rw [Transform.Collection.adapt, Transform.adaptGroup, List.zip_map_right]
      exact List.mem_map.2 ⟨_, hzip, rfl⟩
    obtain ⟨key, hkey, hexport, hroot⟩ := hentries entry _ hout
    have hfile : (Transform.adaptModule w.cwd c.layout (request options []) m).1 ∈
        (c.adapt w.cwd (request options [])).allFiles :=
      List.mem_append_left _ (List.mem_map_of_mem (List.mem_map_of_mem hm))
    refine ⟨key, m, hkey, hpath, h.loaded (List.mem_append_left _ hm), hm, ⟨_, hexport, ?_⟩, ?_, ?_⟩
    · intro pass hpass
      rw [Manifest.get?_conditions, if_pos hpass]
    · intro hkeyRoot pass hpass
      rw [hroot hkeyRoot, if_pos hpass]
    · intro pass hpass
      obtain ⟨run, hrun⟩ := hemission.passes pass hpass
      exact .of_leaves hdir hbelow hfile
        (hrun.before hbelow hlater fun _ _ => Set.notMem_empty _)

/-! ### An export that is not there -/

/-- A workspace with a module whose extension is kept in the manifest. -/
def soleWorkspace : Workspace :=
  .fresh (.ofString "/p") <|
    (FileTree.empty.insert ["p"] .directory).insert ["p", "mod.mjs"]
      (.file "export const a = 1;\n".toUTF8)

/-- The module is the only entry point of a package. -/
def soleOptions : BuildOptions where
  entryPoints := [.bare "./mod.mjs"]
  outDir := .ofString "./npm"
  package := [(.text "name", .str "x")]
  typeCheck := false
  test := false
  declaration := false
  keepSourceFiles := false
  keepTestFiles := false
  rootTestDir := none
  testPattern := .null
  shim := .standard
  mappings := []
  target := none

/-- A build of the module. -/
def soleBuild : BuildTools := .standard echoTools

/-- The build is one that is given its program. -/
theorem run_build_sole : (build soleBuild soleOptions).run soleWorkspace =
    (build (given 1 soleBuild soleOptions soleWorkspace) soleOptions).run soleWorkspace :=
  run_build_given 1 rfl (by decide +kernel)

theorem exports_emitted_sole : ∃ r v,
    (build soleBuild soleOptions).run soleWorkspace = (.ok r, v) ∧
    ∃ (c : Transform.Collection) (dir : Place) (manifest exports : Table Key),
      Transform.collect soleWorkspace.tree soleWorkspace.cwd soleWorkspace.cwd.rooted
        (request soleOptions []) = .ok c ∧
      v.Leads soleOptions.outDir dir ∧
      v.tree.readBytes v.cwd (soleOptions.outDir.child "package.json") =
        .ok (Manifest.fileText manifest).toUTF8 ∧
      manifest.get? (.text "exports") = some (.obj exports.toMembers) ∧
      ∀ entry ∈ EntryPoint.ofSpecs soleOptions.entryPoints, ∃ key m,
        ExportedEntry echo soleOptions c dir manifest exports soleWorkspace v entry key m := by
  have hok : ((build soleBuild soleOptions).run soleWorkspace).1.isOk = true := by
    rw [run_build_sole]
    decide +kernel
  match hrun : (build soleBuild soleOptions).run soleWorkspace with
  | (.ok r, v) =>
    refine ⟨r, v, rfl, exports_emitted echoTools_compiles rfl ?_ (.ofString "./npm") rfl rfl ?_ hrun⟩
    · exact ⟨.ofString "/p", by decide, by decide⟩
    · intro pass
      cases pass <;> rfl
  | (.error e, v) =>
    rw [hrun] at hok
    simp [Except.isOk, Except.toBool] at hok

/-- **An export that is not there**: the build succeeds, the manifest names `mod.mjs` in the
directories of both passes, and both passes leave `mod.js` there and no `mod.mjs`. -/
theorem lost_export : echoTools.Compiles echo ∧
    ((build soleBuild soleOptions).run soleWorkspace).1.isOk = true ∧
    ((build soleBuild soleOptions).run soleWorkspace).2.tree.file? ["p", "npm", "package.json"] =
      some ("\x7b\n  \"name\": \"x\",\n  \"main\": \"./umd/mod.mjs\",\n  \"module\": \"./esm/mod.mjs\"," ++
        "\n  \"exports\": \x7b\n    \".\": \x7b\n      \"import\": \"./esm/mod.mjs\",\n" ++
        "      \"require\": \"./umd/mod.mjs\"\n    \x7d\n  \x7d\n\x7d\n").toUTF8 ∧
    (∀ directory ∈ ["esm", "umd"],
      ((build soleBuild soleOptions).run soleWorkspace).2.tree.isFileAt
          ["p", "npm", directory, "mod.mjs"] = false ∧
        ((build soleBuild soleOptions).run soleWorkspace).2.tree.isFileAt
          ["p", "npm", directory, "mod.js"] = true) := by
  rw [run_build_sole]
  exact ⟨echoTools_compiles, by decide +kernel⟩

end Build

end DenoPackager
