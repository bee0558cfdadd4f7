import DenoPackager.Build
import DenoPackager.Proofs.Course.Passes
import DenoPackager.Proofs.Exit.Compiler

/-!
# Bad exits that go unnoticed

A pass does not look at what the compiler left out. If the compiler exits badly in a pass, the
pass fails unless the bad exit goes unnoticed; and if it does go unnoticed, the pass does not fail
on its account, whatever is missing in the output. A build fails where one of its passes does.

## Main definitions

* `Pass.outcome?`: what becomes of the compiler in a pass.
* `Build.Begins`: a build gets to a pass.

## Main results

* `Pass.bad_exit`: when a bad exit of the compiler makes a pass fail, and a build with it.
* `Build.partial_output`: a build that succeeds without any output.
-/

namespace DenoPackager

open DenoPackager.Action

/-! ### Emitting after a run of the compiler -/

/-- **Emitting** what a run of the compiler left: the files may be ones that cannot be written, and
of the diagnostics those from declarations are kept. -/
theorem Program.emitFrom_of_ok (p : Program) (c : Compiler) (tools : Tools)
    (policy writerPolicy : Policy) (declarationsOnly : Bool) (transforms : List SourceTransform)
    (scratch : Path) {w : Workspace} {ds : List Diagnostic}
    (h : ((c.run tools policy p.options (p.prepared transforms)
      (.emit declarationsOnly (some scratch))).run w).1 = .ok ds) :
    StoppedByFiles ((p.emitFrom c tools policy declarationsOnly transforms
        (Pass.writeEmitted writerPolicy) scratch).run w).1 ∨
      ∃ r, ((p.emitFrom c tools policy declarationsOnly transforms
        (Pass.writeEmitted writerPolicy) scratch).run w).1 = .ok r ∧
        r.diagnostics = ds.filter Diagnostic.isDeclarationEmit := by
  rw [emitFrom, run_bind_of_ok (run_eq h)]
  match hout : p.options.path .outDir with
  | .error f =>
    left
    rw [run_bind_of_error (run_look_of_error rfl)]
    exact ⟨.fault f, rfl, trivial⟩
  | .ok outDir =>
    rw [run_bind_of_ok (run_look_of_ok rfl), run_bind_of_ok (run_get _)]
    match hfiles : (mapEach (relay scratch outDir (Pass.writeEmitted writerPolicy))
        (((c.run tools policy p.options (p.prepared transforms)
          (.emit declarationsOnly (some scratch))).run w).2.tree.filesBelow scratch.parts)).run
        ((c.run tools policy p.options (p.prepared transforms)
          (.emit declarationsOnly (some scratch))).run w).2 with
    | (.ok files, v) =>
      right
      exact ⟨_, congrArg Prod.fst (run_bind_of_ok hfiles), rfl⟩
    | (.error e, v) =>
      left
      refine ⟨e, congrArg Prod.fst (run_bind_of_error hfiles), ?_⟩
      exact Throws.mapEach (throws_relay scratch outDir writerPolicy) _ _ e v hfiles

namespace Pass

variable (pass : Pass) (c : Compiler) (tools : Tools) (compilerPolicy writerPolicy : Policy)
  (package : Path) (project : Project)

/-- The scratch directory of the pass that is begun in `w`, and the workspace that has it. -/
def scratch (w : Workspace) : Path × Workspace :=
  let u := ((pass.compile project).run w).2
  let place := temporaryPlace u.tree temporaryRoot "dnt-emit-"
  (⟨.single, place⟩, u.withDirectory place)

/-- **What becomes of the compiler in the pass** that is begun in `w`, if it gets that far. -/
def outcome? (w : Workspace) : Option CompilerOutcome :=
  c.outcome? tools compilerPolicy project.options (project.program.prepared pass.transforms)
    (.emit (pass = .declarations) (some (pass.scratch project w).1)) (pass.scratch project w).2

/-- The emission of the pass that is begun in `w`. -/
def emission (w : Workspace) : Except Failure EmitResult :=
  ((project.program.emitFrom c tools compilerPolicy (pass = .declarations) pass.transforms
    (writeEmitted writerPolicy) (pass.scratch project w).1).run (pass.scratch project w).2).1

theorem fst_run_emit (w : Workspace) :
    ((project.program.emit c tools compilerPolicy (pass = .declarations) pass.transforms
      (writeEmitted writerPolicy)).run ((pass.compile project).run w).2).1 =
      pass.emission c tools compilerPolicy writerPolicy project w := rfl

theorem run_of_emission_error {w : Workspace} {e : Failure}
    (h : pass.emission c tools compilerPolicy writerPolicy project w = .error e) :
    ((pass.run c tools compilerPolicy writerPolicy package project).run w).1 = .error e := by
  have hemit := fst_run_emit pass c tools compilerPolicy writerPolicy project w
  rw [h] at hemit
  rw [Pass.run, run_bind_of_ok (run_compile w), run_bind_of_error (run_eq hemit)]

theorem run_of_emission_ok {w : Workspace} {r : EmitResult}
    (h : pass.emission c tools compilerPolicy writerPolicy project w = .ok r) :
    ∃ v, ((pass.run c tools compilerPolicy writerPolicy package project).run w).1 =
      ((pass.conclude writerPolicy package r).run v).1 := by
  have hemit := fst_run_emit pass c tools compilerPolicy writerPolicy project w
  rw [h] at hemit
  rw [Pass.run, run_bind_of_ok (run_compile w), run_bind_of_ok (run_eq hemit)]
  exact ⟨_, rfl⟩

/-- An emission without diagnostics is completed, unless the small manifest cannot be written. -/
theorem conclude_of_nil {r : EmitResult} (h : r.diagnostics = []) (w : Workspace) :
    (∃ r', ((pass.conclude writerPolicy package r).run w).1 = .ok r') ∨
      StoppedByFiles ((pass.conclude writerPolicy package r).run w).1 := by
  rw [conclude, if_pos h]
  rcases hm : (pass.writeManifest writerPolicy package).run w with ⟨ended, v⟩
  cases ended with
  | ok u =>
    left
    exact ⟨r, by rw [run_bind_of_ok hm, log, run_bind_of_ok (run_note _ _), run_pure]⟩
  | error e =>
    right
    refine ⟨e, congrArg Prod.fst (run_bind_of_error hm), ?_⟩
    exact throws_writeManifest writerPolicy package pass w e v hm

/-- An emission with diagnostics fails. -/
theorem conclude_of_ne_nil {r : EmitResult} (h : r.diagnostics ≠ []) (w : Workspace) :
    StoppedByCompilation ((pass.conclude writerPolicy package r).run w).1 := by
  refine ⟨.problem (.emissionFailed pass.description pass.directory r.diagnostics), ?_, ?_⟩
  · rw [conclude, if_neg h, logDiagnostics, log, run_bind_of_ok (run_note _ _), run_fail]
  · exact ⟨_, rfl, .inr rfl⟩

/-- **How a pass ends after a bad exit** of the compiler. -/
theorem run_of_bad_exit {w : Workspace} {code : Int} {stdout stderr : String}
    {outputs : List (String × ByteArray)}
    (hexit : pass.outcome? c tools compilerPolicy project w =
      some (.exits code stdout stderr outputs)) (hcode : code ≠ 0) :
    (CompilerOutput.Unnoticed (printedText stdout stderr) →
      (∃ r, ((pass.run c tools compilerPolicy writerPolicy package project).run w).1 = .ok r) ∨
        StoppedByFiles ((pass.run c tools compilerPolicy writerPolicy package project).run w).1) ∧
    (¬CompilerOutput.Unnoticed (printedText stdout stderr) →
      StoppedByFiles ((pass.run c tools compilerPolicy writerPolicy package project).run w).1 ∨
        StoppedByCompilation
          ((pass.run c tools compilerPolicy writerPolicy package project).run w).1) := by
  have herror : ∀ e, pass.emission c tools compilerPolicy writerPolicy project w = .error e →
      ((pass.run c tools compilerPolicy writerPolicy package project).run w).1 = .error e :=
    fun _ => run_of_emission_error pass c tools compilerPolicy writerPolicy package project
  rcases c.run_of_exit tools compilerPolicy project.options
    (project.program.prepared pass.transforms) _ hexit with
    ⟨e, he, hfiles⟩ | ⟨names, reading, command, hreading, hresult⟩
  · -- The compiler left files that cannot be written.
    have hstop := herror e (congrArg Prod.fst (run_bind_of_error (run_eq he)))
    exact ⟨fun _ => .inr ⟨e, hstop, hfiles⟩, fun _ => .inl ⟨e, hstop, hfiles⟩⟩
  · rw [CompilerOutput.unnoticed_iff hreading]
    by_cases hnil : reading.diagnostics = []
    · rw [if_pos ⟨hcode, hnil⟩] at hresult
      have hstop := herror _ (congrArg Prod.fst (run_bind_of_error (run_eq hresult)))
      refine ⟨fun h => absurd hnil h.1, fun _ => .inr ⟨_, hstop, _, rfl, .inl rfl⟩⟩
    · rw [if_neg fun h => hnil h.2] at hresult
      rcases project.program.emitFrom_of_ok c tools compilerPolicy writerPolicy
        (pass = .declarations) pass.transforms _ hresult with
        ⟨e, he, hfiles⟩ | ⟨r, hr, hfilter⟩
      · have hstop := herror e he
        exact ⟨fun _ => .inr ⟨e, hstop, hfiles⟩, fun _ => .inl ⟨e, hstop, hfiles⟩⟩
      · obtain ⟨v, hv⟩ :=
          run_of_emission_ok pass c tools compilerPolicy writerPolicy package project hr
        rw [hv]
        constructor
        · rintro ⟨-, hnone⟩
          refine conclude_of_nil pass writerPolicy package ?_ v
          rw [hfilter, List.filter_eq_nil_iff]
          intro d hd hdecl
          rw [hnone d hd] at hdecl
          simp at hdecl
        · intro hsome
          refine .inr (conclude_of_ne_nil pass writerPolicy package ?_ v)
          intro hempty
          rw [hfilter, List.filter_eq_nil_iff] at hempty
          exact hsome ⟨hnil, fun d hd => Bool.eq_false_iff.2 (hempty d hd)⟩

/-- Passes in order fail where the first of them fails. -/
theorem emitAll_error {before after : List Pass} {project : Project} {w v : Workspace}
    {results : List (Pass × EmitResult)} {e : Failure}
    (hbefore : (emitAll c tools compilerPolicy writerPolicy package project before).run w =
      (.ok results, v))
    (hpass : ((pass.run c tools compilerPolicy writerPolicy package
      (pass.configure package (configureAll package project before))).run v).1 = .error e) :
    ((emitAll c tools compilerPolicy writerPolicy package project
      (before ++ pass :: after)).run w).1 = .error e := by
  induction before generalizing project w results with
  | nil =>
    have hv : w = v := congrArg Prod.snd hbefore
    rw [← hv, configureAll, List.foldl_nil] at hpass
    rw [List.nil_append, run_emitAll_cons, run_bind_of_error (run_eq hpass)]
  | cons q before ih =>
    rw [run_emitAll_cons] at hbefore
    obtain ⟨result, u, hu, hbefore⟩ := of_run_bind_eq_ok hbefore
    obtain ⟨later, u', hu', hbefore⟩ := of_run_bind_eq_ok hbefore
    obtain rfl : u' = v := congrArg Prod.snd hbefore
    have hrest := ih hu' hpass
    rw [List.cons_append, run_emitAll_cons, run_bind_of_ok hu, run_bind_of_error (run_eq hrest)]

end Pass

/-! ### Builds -/

namespace Build

/-- **A build gets to a pass** over `project`, which it begins in `w`: all stages before it have
succeeded. -/
def Begins (b : BuildTools) (options : BuildOptions) (start : Workspace) (pass : Pass)
    (project : Project) (w : Workspace) : Prop :=
  ∃ before after output prepared installed base checked results,
    Pass.all options.declaration = before ++ pass :: after ∧
    (prepare b options).run start = (.ok output, prepared) ∧
    (equip b options output).run prepared = (.ok (), installed) ∧
    (checkedProject b options output).run installed = (.ok base, checked) ∧
    (Pass.emitAll b.compiler b.tools b.policy b.policy options.outDir base before).run checked =
      (.ok results, w) ∧
    project = pass.configure options.outDir (Pass.configureAll options.outDir base before)

/-- **A build fails where one of its passes does.** -/
theorem fails_of_pass {b : BuildTools} {options : BuildOptions} {start w : Workspace} {pass : Pass}
    {project : Project} {e : Failure} (h : Begins b options start pass project w)
    (hpass : ((pass.run b.compiler b.tools b.policy b.policy options.outDir project).run w).1 =
      .error e) :
    ((build b options).run start).1 = .error e := by
  obtain ⟨before, after, output, prepared, installed, base, checked, results, hall, hprepare, hequip,
    hcheck, hbefore, rfl⟩ := h
  have hemit : ((emitAll b options base).run checked).1 = .error e := by
    rw [emitAll, hall]
    exact Pass.emitAll_error pass b.compiler b.tools b.policy b.policy options.outDir hbefore hpass
  rw [build, run_bind_of_ok hprepare, run_bind_of_ok hequip, run_bind_of_ok hcheck,
    run_bind_of_error (run_eq hemit)]

/-- **A bad exit of the compiler in a pass** over a project. If it goes unnoticed, the pass does
not fail on its account, whatever files are missing. If it does not, the pass fails, and so does
any build that gets to the pass. -/
theorem bad_exit (b : BuildTools) (writerPolicy : Policy) (package : Path) (pass : Pass)
    (project : Project) (w : Workspace) (code : Int) (stdout stderr : String)
    (outputs : List (String × ByteArray))
    (hexit : pass.outcome? b.compiler b.tools b.policy project w =
      some (.exits code stdout stderr outputs)) (hcode : code ≠ 0) :
    (CompilerOutput.Unnoticed (printedText stdout stderr) →
      (∃ r, ((pass.run b.compiler b.tools b.policy writerPolicy package project).run w).1 = .ok r) ∨
        StoppedByFiles
          ((pass.run b.compiler b.tools b.policy writerPolicy package project).run w).1) ∧
    (¬CompilerOutput.Unnoticed (printedText stdout stderr) →
      (StoppedByFiles
          ((pass.run b.compiler b.tools b.policy writerPolicy package project).run w).1 ∨
        StoppedByCompilation
          ((pass.run b.compiler b.tools b.policy writerPolicy package project).run w).1) ∧
      ∀ options start, Begins b options start pass project w →
        ∃ e, ((build b options).run start).1 = .error e) := by
  have hpass := fun policy dir => Pass.run_of_bad_exit pass b.compiler b.tools b.policy policy
    dir project hexit hcode
  refine ⟨(hpass writerPolicy package).1, fun hnot => ⟨(hpass writerPolicy package).2 hnot, ?_⟩⟩
  intro options start hbegins
  rcases (hpass b.policy options.outDir).2 hnot with ⟨e, he, -⟩ | ⟨e, he, -⟩
  · exact ⟨e, fails_of_pass hbegins he⟩
  · exact ⟨e, fails_of_pass hbegins he⟩

/-! ### A compiler that emits nothing -/

/-- What a compiler prints about a module that it cannot read. -/
def complaint : String := "mod.ts(1,1): error TS1005: ';' expected."

/-- External programs of which the compiler exits badly every time and leaves nothing. -/
def silentTools : Tools where
  platform := "linux"
  packageManager := fun _ _ => .exits 0
  compiler := fun _ _ => .exits 1 complaint "" []

/-- The transformed program of a single module. -/
def singleModule : TransformOutput where
  main :=
    { files := [⟨"mod.ts", "export const a = 1;\n"⟩]
      entryPoints := ["mod.ts"]
      shimUsed := false
      dependencies := [] }
  test := { files := [], entryPoints := [], shimUsed := false, dependencies := [] }
  warnings := []

/-- A build of the single module with such programs. -/
def silentBuild : BuildTools :=
  { BuildTools.standard silentTools with transformer := some fun _ => pure singleModule }

/-- Its options: neither a check nor declarations nor tests are asked for. -/
def singleOptions : BuildOptions where
  entryPoints := [.bare "./mod.ts"]
  outDir := .ofString "/p/npm"
  package := [(.text "name", .str "x")]
  typeCheck := false
  test := false
  declaration := false
  keepSourceFiles := false
  keepTestFiles := false
  rootTestDir := none
  testPattern := .null
  shim := .standard
  mappings := []
  target := none

/-- The project of the single module, as it is emitted to ES modules. -/
def singleProject : Project :=
  Pass.esm.configure singleOptions.outDir
    { options := .base singleOptions.outDir false none
      files := [("/p/npm/src/mod.ts", "export const a = 1;\n")] }

/-- A workspace in which nothing is there yet. -/
def emptyWorkspace : Workspace := .fresh (.ofString "/p") .empty

theorem unnoticed_complaint : CompilerOutput.Unnoticed (printedText complaint "") := by
  refine ⟨_, rfl, ?_, ?_⟩
  · decide +kernel
  · decide +kernel

theorem outcome?_silent :
    Pass.esm.outcome? silentBuild.compiler silentBuild.tools silentBuild.policy singleProject
      emptyWorkspace = some (.exits 1 complaint "" []) :=
  Compiler.outcome?_eq _ _ _ _ _ _ (fun _ _ => rfl) (by decide +kernel)

theorem bad_exit_of_silent :
    (∃ r, ((Pass.esm.run silentBuild.compiler silentBuild.tools silentBuild.policy .unrestricted
      singleOptions.outDir singleProject).run emptyWorkspace).1 = .ok r) ∨
    StoppedByFiles ((Pass.esm.run silentBuild.compiler silentBuild.tools silentBuild.policy
      .unrestricted singleOptions.outDir singleProject).run emptyWorkspace).1 :=
  (bad_exit silentBuild .unrestricted singleOptions.outDir .esm singleProject emptyWorkspace 1
    complaint "" [] outcome?_silent (by decide)).1 unnoticed_complaint

/-- **A partial output that passes for success**: the compiler exits badly in every pass and leaves
nothing of the only module, and the build succeeds. -/
theorem partial_output :
    silentBuild.tools.compiler = (fun _ _ => .exits 1 complaint "" []) ∧
      singleModule.main.files.map (·.path) = ["mod.ts"] ∧
      (∃ r, ((build silentBuild singleOptions).run emptyWorkspace).1 = .ok r) ∧
      ((build silentBuild singleOptions).run emptyWorkspace).2.tree.isFileAt
        ["p", "npm", "esm", "mod.js"] = false := by
  have hok : ((build silentBuild singleOptions).run emptyWorkspace).1.isOk = true := by
    decide +kernel
  refine ⟨rfl, rfl, ?_, by decide +kernel⟩
  match hr : ((build silentBuild singleOptions).run emptyWorkspace).1 with
  | .ok r => exact ⟨r, rfl⟩
  | .error e =>
    rw [hr] at hok
    simp [Except.isOk, Except.toBool] at hok

end Build

end DenoPackager
