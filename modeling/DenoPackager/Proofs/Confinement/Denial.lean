import DenoPackager.Proofs.Confinement.Undenied
import DenoPackager.Proofs.Files.CleanUp

/-!
# Builds that are denied a write

A build asks once, before anything else is done, whether its output directory may be written. If it
may, no later write or removal is denied: each of them is at a path below that directory, made of
names that lead down only. So a build that is denied a write has written nothing.

## Main results

* `Writer.undenied_below`: what lies below a directory that may be written is written undenied.
* `Pass.undenied_emitAll`, `Build.undenied_equip`, `Build.undenied_runTests`: the stages of a build.
* `Build.denied_up_front`: a build is denied a write at once or not at all.
-/

namespace DenoPackager

open DenoPackager.Action

variable {cwd : Path} {T : FileTree → Prop} {policy : Policy} {dir : Path} {tools : Tools}

/-- **Below a directory that may be written**, a write is not denied. -/
theorem Writer.undenied_below (hT : FileTree.Lasting T) (hcwd : PlainPlace cwd.parts)
    (hdir : dir.Proper) (hallowed : policy.allowsWrite cwd dir = true) {rel : List String}
    (hrel : PlainPlace rel) (text : String) :
    (write policy { dir with parts := dir.parts ++ rel } text).Undenied cwd T := by
  have hproper : ({ dir with parts := dir.parts ++ rel } : Path).Proper :=
    hdir.join (q := ⟨.none, rel⟩) fun c hc => (hrel c hc).1
  exact undenied_writeMarked hT hcwd hproper
    (Policy.allowsWrite_below hrel.up_not_mem hallowed) text false

/-- Such a write in the output directory itself. -/
theorem Writer.undenied_child (hT : FileTree.Lasting T) (hcwd : PlainPlace cwd.parts)
    (hdir : dir.Proper) (hallowed : policy.allowsWrite cwd dir = true) {name : String}
    (hname : PlainPlace [name]) (text : String) :
    (write policy (dir.child name) text).Undenied cwd T :=
  undenied_below hT hcwd hdir hallowed hname text

/-- **Removing files below a directory** that may be written. -/
theorem Writer.undenied_removeAll (hT : FileTree.Lasting T) (hdir : dir.Proper)
    (hallowed : policy.allowsWrite cwd dir = true) {names : List String}
    (hnames : ∀ name ∈ names, IsDown name) : (removeAll policy dir names).Undenied cwd T := by
  refine (Undenied.forEach fun name hname => ?_).bind fun _ => undenied_log _ _
  refine undenied_remove hT (hdir.join (.ofString name)) ?_
  rw [(hnames name hname).joinText]
  exact Policy.allowsWrite_below (hnames name hname).up_not_mem hallowed

theorem IsBelow.plainPlace {name : String} (h : IsBelow name) :
    PlainPlace (Path.ofString name).parts :=
  fun c hc => ⟨Path.Proper.ofString name c hc, fun heq => h.up_not_mem (heq ▸ hc)⟩

/-! ### What writes nothing -/

namespace PackageManager

variable (m : PackageManager) (args : List String)

theorem undenied_start : (m.start tools policy args).Undenied cwd T := by
  refine (policy.undenied_checkRun _).bind fun _ => (undenied_log _ _).bind fun _ => ?_
  refine undenied_get.bind fun w => (undenied_note _).bind fun _ => ?_
  cases tools.packageManager w (m.commandFor tools args) with
  | missing => exact (undenied_note _).bind fun _ => undenied_fail (by simp)
  | exits code => exact undenied_pure _

theorem undenied_finish (c : StartedCommand) : (m.finish c).Undenied cwd T := by
  refine (undenied_note _).bind fun _ => ?_
  split
  · exact undenied_pure ()
  · exact undenied_fail (by simp)

theorem undenied_run : (m.run tools policy args).Undenied cwd T :=
  (m.undenied_start args).bind fun c => m.undenied_finish c

end PackageManager

theorem undenied_requireNoDiagnostics (ds : List Diagnostic) :
    (requireNoDiagnostics ds).Undenied cwd T := by
  rw [requireNoDiagnostics]
  split
  · exact undenied_pure ()
  · exact (undenied_log _ _).bind fun _ => undenied_fail (by simp)

theorem Discovery.undenied_find (root : Path) (pattern : Json) (excluded : List Path) :
    (find root pattern excluded).Undenied cwd T := by
  refine undenied_get.bind fun w => ?_
  refine (Undenied.onlyIf _ (undenied_failure (not_writeDenied_fault _))).bind fun _ => ?_
  exact (undenied_look _).bind fun _ => (undenied_log _ _).bind fun _ => undenied_pure _

/-- Entry points that are out of order are no denial. -/
theorem EntryPoint.not_writeDenied_check (entries : List EntryPoint) :
    ¬ WriteDenied (EntryPoint.check entries) := by
  have hregister : ∀ seen, ¬ WriteDenied (EntryPoint.register seen entries) := by
    induction entries with
    | nil => exact fun seen => not_writeDenied_ok seen
    | cons e es ih =>
      intro seen
      rw [EntryPoint.register]
      split
      · exact not_writeDenied_fault _
      · split
        · rintro ⟨text, h⟩
          simp at h
        · exact ih _
  rw [EntryPoint.check]
  split
  · rintro ⟨text, h⟩
    simp at h
  · split
    · rename_i e heq
      exact fun h => hregister [] (heq ▸ h.of_error)
    · split
      · exact not_writeDenied_ok ()
      · rintro ⟨text, h⟩
        simp at h

/-- A manifest that cannot be made is no denial. -/
theorem Manifest.not_writeDenied_build (entries : List EntryPoint) (shim : Shim)
    (output : TransformOutput) (package : Table Key) (testEnabled declaration : Bool) :
    ¬ WriteDenied (Manifest.build entries shim output package testEnabled declaration) := by
  rw [Manifest.build]
  split
  · rename_i e heq
    exact fun h => EntryPoint.not_writeDenied_check entries (heq ▸ h.of_error)
  · split
    · rintro ⟨text, h⟩
      simp at h
    · split
      · exact not_writeDenied_fault _
      · exact not_writeDenied_ok _

/-! ### Passes -/

namespace Pass

variable {pass : Pass} {c : Compiler} {compilerPolicy : Policy} {package : Path}

theorem plain_directory (pass : Pass) : PlainPlace [pass.directory] := by
  cases pass <;> decide

theorem undenied_writeManifest (hcwd : PlainPlace cwd.parts) (hpackage : package.Proper)
    (hallowed : policy.allowsWrite cwd package = true) :
    (pass.writeManifest policy package).Undenied cwd fun _ => True := by
  have htarget := hpackage.child (pass.plain_directory _ List.mem_cons_self).1
  have hbelow := Policy.allowsWrite_below pass.plain_directory.up_not_mem hallowed
  cases pass with
  | declarations => exact undenied_pure ()
  | esm => exact Writer.undenied_child FileTree.lasting_true hcwd htarget hbelow (by decide) _
  | umd => exact Writer.undenied_child FileTree.lasting_true hcwd htarget hbelow (by decide) _

/-- **A pass** is denied no write if the package may be written. -/
theorem undenied_run (hcwd : PlainPlace cwd.parts) (hpackage : package.Proper)
    (hallowed : policy.allowsWrite cwd package = true) (project : Project) :
    (pass.run c tools compilerPolicy policy package (pass.configure package project)).Undenied cwd
      fun _ => True := by
  have htarget := hpackage.child (pass.plain_directory _ List.mem_cons_self).1
  have hbelow := Policy.allowsWrite_below pass.plain_directory.up_not_mem hallowed
  have hcompile : (pass.compile (pass.configure package project)).Undenied cwd fun _ => True :=
    (undenied_log _ _).bind fun _ => (undenied_log _ _).bind fun _ => undenied_pure _
  refine hcompile.bind_of_run fun program w v _ hr => ?_
  obtain ⟨rfl, -⟩ := of_run_compile hr
  have hpath : (pass.configure package project).program.options.path .outDir =
      .ok (pass.target package) :=
    (path_outDir_configure package).trans (congrArg _ (Path.ofString_text htarget))
  refine (Program.undenied_emit _ c tools compilerPolicy _ _ hcwd htarget hpath hbelow).bind
    fun result => ?_
  rw [conclude]
  split
  · refine (undenied_writeManifest hcwd hpackage hallowed).bind fun _ => ?_
    exact (undenied_log _ _).bind fun _ => undenied_pure _
  · exact (undenied_log _ _).bind fun _ => undenied_fail (by simp)

/-- **Passes in order.** -/
theorem undenied_emitAll (hcwd : PlainPlace cwd.parts) (hpackage : package.Proper)
    (hallowed : policy.allowsWrite cwd package = true) (passes : List Pass) (project : Project) :
    (emitAll c tools compilerPolicy policy package project passes).Undenied cwd
      fun _ => True := by
  induction passes generalizing project with
  | nil => exact undenied_pure _
  | cons pass passes ih =>
    intro w hw
    rw [run_emitAll_cons]
    exact ((undenied_run hcwd hpackage hallowed project).bind fun result =>
      (ih _).bind fun results => undenied_pure _) w hw

end Pass

/-! ### Stages -/

namespace Build

variable {b : BuildTools} {options : BuildOptions} {output : TransformOutput}

/-- **A build that may write** its output directory, seen from the current one. -/
structure MayWrite (b : BuildTools) (options : BuildOptions) (cwd : Path) : Prop where
  plain : PlainPlace cwd.parts
  proper : options.outDir.Proper
  allowed : b.policy.allowsWrite cwd options.outDir = true

namespace MayWrite

theorem undenied_child (h : MayWrite b options cwd) {name : String} (hname : PlainPlace [name])
    (text : String) : (Writer.write b.policy (options.outDir.child name) text).Undenied cwd
      fun _ => True :=
  Writer.undenied_child FileTree.lasting_true h.plain h.proper h.allowed hname text

end MayWrite

theorem undenied_writePackageFiles (h : MayWrite b options cwd) (entries : List EntryPoint) :
    (writePackageFiles b options entries output).Undenied cwd fun _ => True := by
  refine (undenied_ofExcept (Manifest.not_writeDenied_build _ _ _ _ _ _)).bind fun manifest => ?_
  refine (h.undenied_child (by decide) _).bind fun _ => ?_
  split
  · exact h.undenied_child (by decide) _
  · exact undenied_pure ()

theorem undenied_writeSources (h : MayWrite b options cwd)
    (hbelow : ∀ f ∈ output.allFiles, IsBelow f.path) :
    (writeSources b options output).Undenied cwd fun _ => True := by
  refine Undenied.forEach fun f hf => ?_
  rw [(hbelow f hf).joinText, sourceDir, Path.child, List.append_assoc]
  exact Writer.undenied_below FileTree.lasting_true h.plain h.proper h.allowed
    (PlainPlace.append (by decide) (hbelow f hf).plainPlace) _

/-- **Installing packages**: whichever of the two halves fails, it is no denial. -/
theorem undenied_install (h : MayWrite b options cwd)
    (hbelow : ∀ f ∈ output.allFiles, IsBelow f.path) :
    (install b options output).Undenied cwd fun _ => True := by
  refine (PackageManager.undenied_start _ _).attempt_bind fun started hstarted => ?_
  refine ((undenied_writeSources h hbelow).onlyIf _).attempt_bind fun kept hkept => ?_
  match kept, started with
  | .error e, .ok command =>
    refine Undenied.bind ?_ fun _ => undenied_failure hkept
    exact (undenied_log _ _).bind fun _ => undenied_note _
  | .error e, .error _ => exact undenied_failure hkept
  | .ok (), .ok command => exact PackageManager.undenied_finish _ command
  | .ok (), .error e => exact undenied_failure fun hd => hstarted hd.of_error

theorem undenied_equip (h : MayWrite b options cwd)
    (hbelow : ∀ f ∈ output.allFiles, IsBelow f.path) :
    (equip b options output).Undenied cwd fun _ => True :=
  (undenied_writePackageFiles h _).bind fun _ => (undenied_log _ _).bind fun _ =>
    undenied_install h hbelow

theorem undenied_createProject :
    (createProject options output).Undenied cwd fun _ => True := by
  have hadd : ∀ (fs : List TransformedFile) (project : Project),
      (addSources options project fs).Undenied cwd fun _ => True := by
    intro fs
    induction fs with
    | nil => exact fun project => undenied_pure project
    | cons f fs ih =>
      intro project
      refine Undenied.bind ?_ fun next => ih next
      exact (Undenied.onlyIf _ (undenied_log _ _)).bind fun _ => undenied_pure _
  exact hadd _ _

theorem undenied_checkedProject (hcwd : PlainPlace cwd.parts) :
    (checkedProject b options output).Undenied cwd fun _ => True := by
  refine (undenied_log _ _).bind fun _ => undenied_createProject.bind fun project => ?_
  refine Undenied.bind ((undenied_log _ _).bind fun _ => undenied_pure _) fun program => ?_
  refine Undenied.bind (Undenied.onlyIf _ ?_) fun _ => undenied_pure _
  refine (undenied_log _ _).bind fun _ => Undenied.bind ?_ undenied_requireNoDiagnostics
  exact Compiler.undenied_run FileTree.lasting_true hcwd _ _ (by simp)

/-- **Running the tests** and removing their files. -/
theorem undenied_runTests (h : MayWrite b options cwd)
    (hbelow : ∀ f ∈ output.allFiles, IsBelow f.path) :
    (runTests b options output).Undenied cwd fun _ => True := by
  refine (undenied_log _ _).bind fun _ => (h.undenied_child (by decide) _).bind fun _ => ?_
  refine (PackageManager.undenied_run _ _).bind fun _ => Undenied.onlyIf _ ?_
  refine Writer.undenied_removeAll FileTree.lasting_true h.proper h.allowed fun name hname => ?_
  rw [testArtifacts] at hname
  split at hname
  · exact TestLauncher.isDown_of_mem_artifacts hbelow hname
  · simp at hname

/-- Looking for tests and transforming the program writes nothing. -/
theorem undenied_transformProgram (htransformer : b.transformer = none)
    (entries : List EntryPoint) :
    (transformProgram b options entries).Undenied cwd fun _ => True := by
  have hdiscover : (discover options).Undenied cwd fun _ => True := by
    rw [discover]
    split
    · exact undenied_get.bind fun _ => (Discovery.undenied_find _ _ _).bind fun _ =>
        (undenied_log _ _).bind fun _ => undenied_pure _
    · exact undenied_pure _
  refine hdiscover.bind fun tests => undenied_get.bind fun w => ?_
  rw [htransformer]
  refine Undenied.bind ?_ fun output =>
    (Undenied.forEach fun _ _ => undenied_log _ _).bind fun _ => undenied_pure _
  exact (undenied_look _).bind fun _ => (undenied_log _ _).bind fun _ => undenied_pure _

theorem undenied_prepare (h : MayWrite b options cwd) (htransformer : b.transformer = none) :
    (prepare b options).Undenied cwd fun _ => True := by
  refine (undenied_ofExcept (EntryPoint.not_writeDenied_check _)).bind fun _ => ?_
  refine (Policy.undenied_checkWrite h.proper h.allowed).bind fun _ => ?_
  exact (undenied_log _ _).bind fun _ => undenied_transformProgram htransformer _

/-- **A build whose output directory may be written** is denied no write. -/
theorem undenied_build (h : MayWrite b options cwd) (htransformer : b.transformer = none) :
    (build b options).Undenied cwd fun _ => True := by
  refine (undenied_prepare h htransformer).bind_of_run fun output w v hw hprepare => ?_
  -- the files of the transformed program lie below its output directory
  have hbelow : ∀ f ∈ output.allFiles, IsBelow f.path := by
    obtain ⟨-, -, tests, c, -, hc, rfl⟩ := of_run_prepare htransformer hprepare
    obtain ⟨mainSeen, testSeen, hcollected⟩ := Transform.collect_eq_ok_iff.1 hc
    have hproper : w.cwd.Proper := by
      rw [hw.cwd_eq]
      exact fun c hc => (h.plain c hc).1
    exact (hcollected.paths_adapt hproper.rooted w.cwd.isAbsolute_rooted).1
  refine (undenied_equip h hbelow).bind fun _ => ?_
  refine (undenied_checkedProject h.plain).bind fun project => ?_
  refine (Pass.undenied_emitAll h.plain h.proper h.allowed _ project).bind fun _ => ?_
  refine (Undenied.onlyIf _ (undenied_runTests h hbelow)).bind fun _ => ?_
  exact (undenied_log _ _).bind fun _ => undenied_get.bind fun _ => undenied_pure _

/-- A build whose output directory may not be written ends before anything is done. -/
theorem run_build_of_refused {w : Workspace} (hproper : options.outDir.Proper)
    (h : b.policy.allowsWrite w.cwd options.outDir = false) :
    (∃ e, EntryPoint.check (EntryPoint.ofSpecs options.entryPoints) = .error e ∧
      (build b options).run w = (.error e, w)) ∨
    (build b options).run w = (.error (.problem (.writeDenied options.outDir.text)),
      { w with events := w.events ++
        [.logged .debug ("Denied write to " ++ (options.outDir.absolute w.cwd).text)] }) := by
  rw [build, prepare]
  cases EntryPoint.check (EntryPoint.ofSpecs options.entryPoints) with
  | error e => exact .inl ⟨e, rfl, rfl⟩
  | ok u =>
    refine .inr (run_bind_of_error ?_)
    have hchecked : (ofExcept (.ok u : Except Failure Unit)).run w = (.ok u, w) := rfl
    rw [run_bind_of_ok hchecked]
    rw [← Path.ofString_text hproper] at h
    have hrefused := Policy.run_checkWrite_of_refused h
    rw [Path.ofString_text hproper] at hrefused
    exact run_bind_of_error hrefused

/-- **A build is denied a write at once or not at all.** If the check of the output directory
passes, no later step is denied a write, whatever the compiler puts out. So if a build ends with the
denial of a write, it was that of the output directory, and nothing was done but to log it. -/
theorem denied_up_front {w : Workspace} (htransformer : b.transformer = none)
    (hcwd : PlainPlace w.cwd.parts) (hproper : options.outDir.Proper) :
    (((b.policy.checkWrite options.outDir.text).run w).1 = .ok () →
      ¬ WriteDenied ((build b options).run w).1) ∧
    ∀ text v, (build b options).run w = (.error (.problem (.writeDenied text)), v) →
      text = options.outDir.text ∧
      v = { w with events := w.events ++
        [.logged .debug ("Denied write to " ++ (options.outDir.absolute w.cwd).text)] } := by
  have hallowed (h : b.policy.allowsWrite w.cwd options.outDir = true) :
      ¬ WriteDenied ((build b options).run w).1 :=
    (undenied_build ⟨hcwd, hproper, h⟩ htransformer w ⟨rfl, trivial⟩).2
  refine ⟨fun hpasses => hallowed ?_, fun text v hdenied => ?_⟩
  · have hcheck := Policy.of_run_checkWrite (Prod.ext hpasses rfl)
    rwa [Path.ofString_text hproper] at hcheck
  · have hrefused : ¬ b.policy.allowsWrite w.cwd options.outDir = true :=
      fun h => hallowed h ⟨text, congrArg Prod.fst hdenied⟩
    obtain hentries | hdenial := run_build_of_refused hproper (Bool.not_eq_true _ ▸ hrefused)
    · obtain ⟨e, he, hbuild⟩ := hentries
      rw [hbuild, Prod.mk.injEq, Except.error.injEq] at hdenied
      exact absurd ⟨text, hdenied.1 ▸ he⟩ (EntryPoint.not_writeDenied_check _)
    · rw [hdenial, Prod.mk.injEq, Except.error.injEq, Failure.problem.injEq,
        Problem.writeDenied.injEq] at hdenied
      exact ⟨hdenied.1.symm, hdenied.2.symm⟩

/-- A build of one module that may write below its output directory and nowhere else. -/
def confinedBuild : BuildTools :=
  { soleBuild with policy := .confinedTo soleOptions.outDir none }

theorem denied_up_front_sole :
    ((confinedBuild.policy.checkWrite soleOptions.outDir.text).run soleWorkspace).1 = .ok () ∧
      ¬ WriteDenied ((build confinedBuild soleOptions).run soleWorkspace).1 := by
  have hpasses : ((confinedBuild.policy.checkWrite soleOptions.outDir.text).run
      soleWorkspace).1 = .ok () := by rfl
  exact ⟨hpasses, (denied_up_front rfl (by decide) (.ofString _)).1 hpasses⟩

end Build

end DenoPackager
