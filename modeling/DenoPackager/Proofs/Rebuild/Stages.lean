import DenoPackager.Proofs.Rebuild.Package

/-!
# Stages that are done once more

All that a build does with a transformed program can be done once more over what it has left in its
package, from the manifest to the run of the tests: each stage writes the same files at the same
places, and reads nothing else in the package than what it or an earlier stage has written.

## Main definitions

* `Build.produce`: a build from the transformed program up to the run of the tests.

## Main results

* `Pass.redoes_emitAll`: the passes.
* `Build.redoes_produce`: all stages together.
-/

namespace DenoPackager

open DenoPackager.Action

variable {left : Leftovers} {dir : Place} {w v : Workspace} {tools : Tools}
  {compilerPolicy policy : Policy} {c : Compiler} {package : Path} {project : Project}
  {files : List TransformedFile}

/-! ### Passes -/

theorem redoes_requireNoDiagnostics {s : Site} (ds : List Diagnostic) :
    (requireNoDiagnostics ds).Redoes s left w := by
  rw [requireNoDiagnostics]
  split
  · exact redoes_pure ()
  · exact (redoes_log _ _).bind fun _ _ _ _ => redoes_fail _

theorem Project.redoes_compile {s : Site} (project : Project) : project.compile.Redoes s left w :=
  (redoes_log _ _).bind fun _ _ _ _ => redoes_pure _

/-- **Writing a file** below a name that a build makes in its package. -/
theorem Build.redoes_write_package (hw : w.Grounded)
    (hpackage : dir = package.start w.cwd ++ package.parts) {name : String} {rel : List String}
    (hname : name ∈ packageNames) (hup : Path.up ∉ package.parts ++ name :: rel) (text : String) :
    (Writer.write policy { package with parts := package.parts ++ name :: rel } text).Redoes
      (Site.package dir) left w :=
  Writer.redoes_writeMarked hw (admits_package hpackage hname hup) text false

namespace Pass

variable {pass : Pass}

/-- **The last step of a pass** writes the small manifest, if there is one. -/
theorem redoes_conclude (hw : w.Grounded) (hpackage : dir = package.start w.cwd ++ package.parts)
    (hup : Path.up ∉ package.parts) (result : EmitResult) :
    (pass.conclude policy package result).Redoes (Site.package dir) left w := by
  rw [conclude]
  split
  · refine Redoes.bind ?_ fun _ _ _ _ => (redoes_log _ _).bind fun _ _ _ _ => redoes_pure _
    rw [writeManifest]
    split
    · have hpath : (pass.target package).child "package.json" =
          { package with parts := package.parts ++ pass.directory :: ["package.json"] } := by
        rw [target, Path.child, Path.child, List.append_assoc, List.singleton_append]
      rw [hpath]
      refine Build.redoes_write_package hw hpackage pass.directory_mem ?_ _
      simp only [List.mem_append, List.mem_cons, List.not_mem_nil, or_false, not_or]
      exact ⟨hup, Ne.symm pass.directory_shape.2.1, by decide⟩
    · exact redoes_pure ()
  · exact (redoes_log _ _).bind fun _ _ _ _ => redoes_fail _

/-- **A pass.** -/
theorem redoes_run (h : Build.Underway left dir w)
    (hsteady : tools.Steady (Site.package dir).places) (hpackage : w.Leads package dir)
    (hproper : package.Proper) (hholds : project.Holds package files)
    (hup : Path.up ∉ package.parts) :
    (pass.run c tools compilerPolicy policy package (pass.configure package project)).Redoes
      (Site.package dir) left w := by
  have hcompile :
      (pass.compile (pass.configure package project)).Redoes (Site.package dir) left w :=
    (redoes_log _ _).bind fun _ _ _ _ => Project.redoes_compile _
  refine hcompile.bind fun program v hr hv => ?_
  obtain ⟨rfl, -⟩ := of_run_compile hr
  have hv' := h.of_grows hv
  have hleads := hv.leads hpackage
  refine (hv'.redoes_emit hsteady hleads hproper hholds hup pass).bind fun result u _ hu => ?_
  refine redoes_conclude (hu.grounded hv'.grounded) ?_ hup result
  exact FileTree.enter_down hup (hu.leads hleads)

/-- **Passes in order.** -/
theorem redoes_emitAll (h : Build.Underway left dir w)
    (hsteady : tools.Steady (Site.package dir).places) (hpackage : w.Leads package dir)
    (hproper : package.Proper) (hholds : project.Holds package files)
    (hup : Path.up ∉ package.parts) (passes : List Pass) :
    (emitAll c tools compilerPolicy policy package project passes).Redoes
      (Site.package dir) left w := by
  induction passes generalizing project w with
  | nil => exact Redoes.bind (redoes_pure _) fun _ _ _ _ => redoes_ofExcept _
  | cons pass passes ih =>
    have hrun : (pass.run c tools compilerPolicy policy package (pass.configure package project) >>=
        fun result => emitAll c tools compilerPolicy policy package
          (pass.configure package project) passes >>=
        fun results => pure ((pass, result) :: results)).Redoes (Site.package dir) left w := by
      refine (redoes_run h hsteady hpackage hproper hholds hup).bind fun result v _ hv => ?_
      refine Redoes.bind ?_ fun _ _ _ _ => redoes_pure _
      exact ih (h.of_grows hv) (hv.leads hpackage) (hholds.configure pass)
    exact hrun.congr fun w a v => by rw [run_emitAll_cons]

end Pass

namespace Build

variable {b : BuildTools} {options : BuildOptions} {output : TransformOutput}

/-! ### Before the passes -/

theorem redoes_writePackageFiles (hw : w.Grounded)
    (hpackage : dir = options.outDir.start w.cwd ++ options.outDir.parts)
    (hup : Path.up ∉ options.outDir.parts) (entries : List EntryPoint) :
    (writePackageFiles b options entries output).Redoes (Site.package dir) left w := by
  have hname {name : String} (hne : name ≠ Path.up) : Path.up ∉ options.outDir.parts ++ [name] := by
    rw [List.mem_append, List.mem_singleton, not_or]
    exact ⟨hup, Ne.symm hne⟩
  refine (redoes_ofExcept _).bind fun manifest v hmanifest _ => ?_
  obtain ⟨-, rfl⟩ := of_run_ofExcept_eq_ok hmanifest
  refine Redoes.bind (redoes_write_package hw hpackage (by decide) (hname (by decide)) _)
    fun _ u _ hu => ?_
  split
  · refine redoes_write_package (hu.grounded hw) ?_ (by decide) (hname (by decide)) _
    rw [hpackage, hu.cwd]
  · exact redoes_pure ()

theorem redoes_keepSources (hw : w.Grounded)
    (hpackage : dir = options.outDir.start w.cwd ++ options.outDir.parts)
    (hup : Path.up ∉ options.outDir.parts) (hbelow : ∀ f ∈ output.allFiles, IsBelow f.path) :
    (keepSources b options output).Redoes (Site.package dir) left w := by
  refine Redoes.onlyIf _ fun _ => Redoes.forEach fun f hf v hv => ?_
  have hpath : (sourceDir options).joinText f.path =
      { options.outDir with
        parts := options.outDir.parts ++ "src" :: (Path.ofString f.path).parts } := by
    rw [(hbelow f hf).joinText, sourceDir, Path.child, List.append_assoc, List.singleton_append]
  rw [hpath]
  refine redoes_write_package (hv.grounded hw) ?_ (by decide) ?_ _
  · rw [hpackage, hv.cwd]
  · simp only [List.mem_append, List.mem_cons, not_or]
    exact ⟨hup, by decide, (hbelow f hf).up_not_mem⟩

/-- **The installation succeeds** just if it was started, the sources were written, and it ended
well. -/
theorem run_install_eq_ok_iff {w v : Workspace} {a : Unit} :
    (install b options output).run w = (.ok a, v) ↔
      ((packageManager options).start b.tools b.policy ["install"] >>= fun command =>
        keepSources b options output >>= fun _ =>
          (packageManager options).finish command).run w = (.ok a, v) := by
  constructor
  · intro h
    cases hs : ((packageManager options).start b.tools b.policy ["install"]).run w with
    | mk started u =>
      cases hk : (keepSources b options output).run u with
      | mk kept x =>
        rw [run_install b options output hs hk] at h
        obtain ⟨command, rfl, rfl⟩ | ⟨e, y, herror, -⟩ :=
          settle_cases (packageManager options) kept started x
        · rw [run_bind_of_ok hs, run_bind_of_ok hk]
          exact h
        · rw [herror] at h
          exact absurd (congrArg Prod.fst h) nofun
  · intro h
    obtain ⟨command, u, hs, h⟩ := of_run_bind_eq_ok h
    obtain ⟨kept, x, hk, h⟩ := of_run_bind_eq_ok h
    rw [run_install b options output hs hk]
    exact h

theorem redoes_install (hsteady : b.tools.Steady (Site.package dir).places)
    (hleft : ∀ q, left q ≠ none → q ∈ (Site.package dir).places) (hw : w.Grounded)
    (hpackage : dir = options.outDir.start w.cwd ++ options.outDir.parts)
    (hup : Path.up ∉ options.outDir.parts) (hbelow : ∀ f ∈ output.allFiles, IsBelow f.path) :
    (install b options output).Redoes (Site.package dir) left w := by
  refine Redoes.congr ?_ fun _ _ _ => run_install_eq_ok_iff
  refine (PackageManager.redoes_start _ _ hsteady hleft).bind fun command v _ hv => ?_
  refine (redoes_keepSources (hv.grounded hw) ?_ hup hbelow).bind fun _ _ _ _ =>
    PackageManager.redoes_finish _ command
  rw [hpackage, hv.cwd]

theorem redoes_equip (hsteady : b.tools.Steady (Site.package dir).places)
    (hleft : ∀ q, left q ≠ none → q ∈ (Site.package dir).places) (hw : w.Grounded)
    (hpackage : dir = options.outDir.start w.cwd ++ options.outDir.parts)
    (hup : Path.up ∉ options.outDir.parts) (hbelow : ∀ f ∈ output.allFiles, IsBelow f.path) :
    (equip b options output).Redoes (Site.package dir) left w := by
  refine (redoes_writePackageFiles hw hpackage hup _).bind fun _ v _ hv => ?_
  refine (redoes_log _ _).bind fun _ u _ hu => ?_
  refine redoes_install hsteady hleft ((hv.trans hu).grounded hw) ?_ hup hbelow
  rw [hpackage, (hv.trans hu).cwd]

theorem redoes_addSources {s : Site} (project : Project) (fs : List TransformedFile) :
    (addSources options project fs).Redoes s left w := by
  induction fs generalizing project w with
  | nil => exact redoes_pure _
  | cons f fs ih =>
    refine Redoes.bind ?_ fun project _ _ _ => ih project
    exact (Redoes.onlyIf _ fun _ => redoes_log _ _).bind fun _ _ _ _ => redoes_pure _

theorem redoes_checkedProject (h : Underway left dir w)
    (hsteady : b.tools.Steady (Site.package dir).places) (hpackage : w.Leads options.outDir dir)
    (hproper : options.outDir.Proper) (hbelow : ∀ f ∈ output.allFiles, IsBelow f.path)
    (hnodup : (output.allFiles.map (·.path)).Nodup) :
    (checkedProject b options output).Redoes (Site.package dir) left w := by
  refine (redoes_log _ _).bind fun _ v _ hv => ?_
  refine (redoes_addSources _ _).bind fun project u hproject hu => ?_
  obtain ⟨-, hholds⟩ := of_run_createProject hproper hbelow hnodup hproject
  refine (Project.redoes_compile _).bind fun program x hprogram hx => ?_
  obtain ⟨_, _, -, hprogram⟩ := of_run_bind_eq_ok hprogram
  rw [run_pure, Prod.mk.injEq, Except.ok.injEq] at hprogram
  obtain ⟨rfl, -⟩ := hprogram
  refine (Redoes.onlyIf _ fun _ => ?_).bind fun _ _ _ _ => redoes_pure _
  refine (redoes_log _ _).bind fun _ y _ hy => ?_
  have hgrows := ((hv.trans hu).trans hx).trans hy
  refine Redoes.bind ?_ fun ds _ _ _ => redoes_requireNoDiagnostics ds
  exact (h.of_grows hgrows).redoes_check hsteady (hgrows.leads hpackage) hproper hholds
/-! ### The tests -/

/-- **Running the tests**, whose files are left where they are. -/
def launchTests (b : BuildTools) (options : BuildOptions) (output : TransformOutput) :
    Action Unit := do
  log .info "Running tests..."
  Writer.write b.policy (options.outDir.child TestLauncher.fileName)
    (TestLauncher.code options.shim.importName output.test.entryPoints output.test.shimUsed)
  (packageManager options).run b.tools b.policy ["run", "test"]

theorem redoes_launchTests (hsteady : b.tools.Steady (Site.package dir).places)
    (hleft : ∀ q, left q ≠ none → q ∈ (Site.package dir).places) (hw : w.Grounded)
    (hpackage : dir = options.outDir.start w.cwd ++ options.outDir.parts)
    (hup : Path.up ∉ options.outDir.parts) :
    (launchTests b options output).Redoes (Site.package dir) left w := by
  refine (redoes_log _ _).bind fun _ v _ hv => ?_
  refine Redoes.bind ?_ fun _ _ _ _ => PackageManager.redoes_run _ _ hsteady hleft
  refine redoes_write_package (hv.grounded hw) ?_ (by decide) ?_ _
  · rw [hpackage, hv.cwd]
  · rw [List.mem_append, List.mem_singleton, not_or]
    exact ⟨hup, by decide⟩

/-! ### All stages -/

/-- **A build from its manifest on** up to the run of the tests. -/
def complete (b : BuildTools) (options : BuildOptions) (output : TransformOutput) :
    Action Unit := do
  let project ← checkedProject b options output
  let _ ← emitAll b options project
  onlyIf options.test (launchTests b options output)

/-- **A build from the transformed program** up to the run of the tests. -/
def produce (b : BuildTools) (options : BuildOptions) (output : TransformOutput) :
    Action Unit := do
  equip b options output
  complete b options output

/-- What is left of a build after that: the files of the tests are removed unless they are kept. -/
def finish (b : BuildTools) (options : BuildOptions) (output : TransformOutput) :
    Action BuildResult := do
  onlyIf (options.test && !options.keepTestFiles)
    (Writer.removeAll b.policy options.outDir (TestLauncher.artifacts output))
  log .info "Complete!"
  let w ← get
  pure { outDir := options.outDir, written := w.written, warnings := output.warnings }

/-- **A build in three parts**: only the first one looks at files from outside of the package, and
only the last one removes any. -/
theorem build_eq_produce : build b options =
    prepare b options >>= fun output => produce b options output >>= fun _ =>
      finish b options output := by
  cases htest : options.test with
  | false =>
    simp only [build, produce, complete, finish, htest, onlyIf, bind_assoc, pure_bind,
      Bool.false_and, Bool.false_eq_true, if_false]
  | true =>
    simp only [build, runTests, produce, complete, launchTests, finish, htest, onlyIf,
      testArtifacts_of_test htest, bind_assoc, Bool.true_and, if_true]

/-- **The package is there** once its manifest was written. -/
theorem leads_of_run_equip (hw : w.Grounded) (hbelow : ∀ f ∈ output.allFiles, IsBelow f.path)
    (hpackage : dir = options.outDir.start w.cwd ++ options.outDir.parts)
    (hup : Path.up ∉ options.outDir.parts) {a : Unit}
    (h : (equip b options output).run w = (.ok a, v)) : v.Leads options.outDir dir := by
  obtain ⟨place, -, hplace, -, hsame, -⟩ := of_run_equip hw hbelow h
  rwa [FileTree.enter_down hup hplace, hsame.cwd, ← hpackage] at hplace

section

variable (h : Underway left dir w) (hsteady : b.tools.Steady (Site.package dir).places)
  (hproper : options.outDir.Proper) (hup : Path.up ∉ options.outDir.parts)
  (hbelow : ∀ f ∈ output.allFiles, IsBelow f.path) (hnodup : (output.allFiles.map (·.path)).Nodup)

include h hsteady hproper hup hbelow hnodup

theorem redoes_complete (hleads : w.Leads options.outDir dir) :
    (complete b options output).Redoes (Site.package dir) left w := by
  refine (redoes_checkedProject h hsteady hleads hproper hbelow hnodup).bind
    fun project v hcheck hv => ?_
  obtain ⟨-, hholds⟩ := of_run_checkedProject h.grounded hleads hproper hbelow hnodup hcheck
  refine (Pass.redoes_emitAll (h.of_grows hv) hsteady (hv.leads hleads) hproper hholds hup _).bind
    fun _ u _ hu => ?_
  have hwu := hv.trans hu
  refine Redoes.onlyIf _ fun _ => redoes_launchTests hsteady h.left (hwu.grounded h.grounded) ?_ hup
  exact FileTree.enter_down hup (hwu.leads hleads)

variable (hpackage : dir = options.outDir.start w.cwd ++ options.outDir.parts)

include hpackage

/-- **All stages together** can be done once more over what they have left. -/
theorem redoes_produce : (produce b options output).Redoes (Site.package dir) left w := by
  refine (redoes_equip hsteady h.left h.grounded hpackage hup hbelow).bind
    fun _ v hequip hv => ?_
  exact redoes_complete (h.of_grows hv) hsteady hproper hup hbelow hnodup
    (leads_of_run_equip h.grounded hbelow hpackage hup hequip)

/-- **The package is there** after all stages. -/
theorem leads_of_run_produce {a : Unit} (hproduce : (produce b options output).run w = (.ok a, v)) :
    v.Leads options.outDir dir := by
  obtain ⟨_, u, hequip, hcomplete⟩ := of_run_bind_eq_ok hproduce
  have hu := (redoes_equip hsteady h.left h.grounded hpackage hup hbelow).grows _ _ hequip
  have hleads := leads_of_run_equip h.grounded hbelow hpackage hup hequip
  have hv := (redoes_complete (h.of_grows hu) hsteady hproper hup hbelow hnodup hleads).grows
  exact (hv _ _ hcomplete).leads hleads

end

end Build

end DenoPackager
