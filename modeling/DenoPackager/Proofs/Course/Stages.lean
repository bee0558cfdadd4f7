import DenoPackager.Build
import DenoPackager.Proofs.Course.Passes

/-!
# The deeds of the stages of a build

Each stage of a build has its own list of deeds. Looking for tests and transforming the program
are no deeds at all.

## Main results

* `Build.quiet_prepare`: nothing is done before the manifest is written.
* `Build.fulfils_install`, `Build.install_ok`: the installation is tried first, the sources are
  written while it runs, and it is waited for at the end.
* `Build.fulfils_runTests`: the launcher is written, the tests are run and their files removed.
-/

namespace DenoPackager

open DenoPackager.Action

theorem Discovery.quiet_find (root : Path) (pattern : Json) (excluded : List Path) :
    (find root pattern excluded).Quiet := by
  refine quiet_get.bind fun w => ?_
  refine (Quiet.onlyIf _ (quiet_fault _)).bind fun _ => ?_
  exact (quiet_look _).bind fun _ => (quiet_log _ _).bind fun _ => quiet_pure _

theorem Transform.quiet_transform (base : Path) (request : Transform.Request) :
    (transform base request).Quiet :=
  (quiet_look _).bind fun _ => (quiet_log _ _).bind fun _ => quiet_pure _

namespace Build

variable (b : BuildTools) (options : BuildOptions) (output : TransformOutput)

/-! ### Before the manifest -/

theorem quiet_discover : (discover options).Quiet := by
  rw [discover]
  split
  · exact quiet_get.bind fun _ => (Discovery.quiet_find _ _ _).bind fun _ =>
      (quiet_log _ _).bind fun _ => quiet_pure _
  · exact quiet_pure _

/-- **Transforming is no deed**, if modules are transformed in files. -/
theorem quiet_prepare {b : BuildTools} (h : b.transformer = none) : (prepare b options).Quiet := by
  refine (quiet_ofExcept _).bind fun _ => ?_
  refine (b.policy.quiet_checkWrite _).bind fun _ => ?_
  refine (quiet_log _ _).bind fun _ => ?_
  refine (quiet_discover options).bind fun tests => ?_
  refine quiet_get.bind fun w => ?_
  rw [h]
  refine (Transform.quiet_transform w.cwd.rooted _).bind fun output => ?_
  exact (Quiet.forEach (fun _ => quiet_log _ _) _).bind fun _ => quiet_pure _

/-! ### The package files -/

/-- The writing of the manifest, and of the list of files that are not published if there is
one. -/
def packageDeeds : List Deed :=
  .wrote (options.outDir.child "package.json") ::
    match Manifest.ignoreText options.keepSourceFiles (testArtifacts options output) with
    | some _ => [.wrote (options.outDir.child ".npmignore")]
    | none => []

theorem fulfils_writePackageFiles (entries : List EntryPoint) (w : Workspace) :
    (writePackageFiles b options entries output).Fulfils w (packageDeeds options output) := by
  refine (quiet_ofExcept _).bind_fulfils (by simp [packageDeeds]) fun manifest v _ => ?_
  refine (Writer.fulfils_write b.policy _ _ v).bind fun _ u _ => ?_
  cases Manifest.ignoreText options.keepSourceFiles (testArtifacts options output) with
  | some text => exact Writer.fulfils_write b.policy _ text u
  | none => exact fulfils_pure () u

/-! ### The installation -/

/-- The writing of the transformed sources, if they are kept. -/
def sourceDeeds : List Deed :=
  if options.keepSourceFiles then
    output.allFiles.map fun f => .wrote ((sourceDir options).joinText f.path)
  else []

/-- **The deeds of the installation.** The sources are written between its start and its end. -/
def installDeeds : List Deed :=
  (packageManager options).attempts b.tools b.policy ["install"] ++ sourceDeeds options output ++
    [.ended ((packageManager options).commandFor b.tools ["install"])]

theorem fulfils_keepSources (w : Workspace) :
    (keepSources b options output).Fulfils w (sourceDeeds options output) := by
  refine Fulfils.onlyIf options.keepSourceFiles (Fulfils.forEach (fun f v => ?_) _ w)
  exact Writer.fulfils_write b.policy _ f.text v

/-- The installation from the point where the sources have been written or not. -/
theorem run_install {w u v : Workspace} {started : Except Failure StartedCommand}
    {kept : Except Failure Unit}
    (hs : ((packageManager options).start b.tools b.policy ["install"]).run w = (started, u))
    (hk : (keepSources b options output).run u = (kept, v)) :
    (install b options output).run w = (settle (packageManager options) kept started).run v := by
  rw [install, run_bind_of_ok (run_attempt hs), run_bind_of_ok (run_attempt hk)]

/-- The installation fails unless the sources were written and it was started. -/
theorem settle_cases (manager : PackageManager) (kept : Except Failure Unit)
    (started : Except Failure StartedCommand) (w : Workspace) :
    (∃ command, kept = .ok () ∧ started = .ok command) ∨
      ∃ e v, (settle manager kept started).run w = (.error e, v) ∧ v.deeds = w.deeds := by
  match kept, started with
  | .ok (), .ok command => exact .inl ⟨command, rfl, rfl⟩
  | .ok (), .error e => exact .inr ⟨e, w, rfl, rfl⟩
  | .error e, .error _ => exact .inr ⟨e, w, rfl, rfl⟩
  | .error e, .ok command =>
    exact .inr ⟨e, ((PackageManager.kill command).run w).2, rfl, PackageManager.quiet_kill command w⟩

/-- **The installation fulfils its deeds.** -/
theorem fulfils_install (w : Workspace) :
    (install b options output).Fulfils w (installDeeds b options output) := by
  match hs : ((packageManager options).start b.tools b.policy ["install"]).run w with
  | (started, u) =>
  match hk : (keepSources b options output).run u with
  | (kept, v) =>
    have hrun := run_install b options output hs hk
    have hu : u.deeds =
        w.deeds ++ (packageManager options).attempts b.tools b.policy ["install"] := by
      rw [← PackageManager.deeds_start w, hs]
    obtain ⟨done, hdone, hpre, hall⟩ := fulfils_keepSources b options output u
    rw [hk] at hdone hall
    have hv : v.deeds = w.deeds ++
        ((packageManager options).attempts b.tools b.policy ["install"] ++ done) := by
      rw [hdone, hu, List.append_assoc]
    rcases settle_cases (packageManager options) kept started v with
      ⟨command, rfl, rfl⟩ | ⟨e, v', he, hv'⟩
    · have hall' := hall.1 ⟨(), rfl⟩
      have hcommand := (PackageManager.start_ok hs).2
      rw [hall'] at hv
      rw [installDeeds, ← hcommand]
      exact .from hrun hv (PackageManager.fulfils_finish command v)
    · refine fulfils_of_error (hrun.trans he) (hv'.trans hv) ?_ ?_
      · rw [installDeeds, List.append_assoc, List.prefix_append_right_inj]
        exact hpre.trans (List.prefix_append _ _)
      · intro heq
        rw [installDeeds, List.append_assoc, List.append_right_inj] at heq
        have hlen := hpre.length_le
        rw [heq, List.length_append, List.length_singleton] at hlen
        omega

/-- **An installation that succeeded was started.** -/
theorem install_ok {w v : Workspace} (h : (install b options output).run w = (.ok (), v)) :
    (packageManager options).mayStart b.tools b.policy ["install"] = true := by
  match hs : ((packageManager options).start b.tools b.policy ["install"]).run w with
  | (started, u) =>
  match hk : (keepSources b options output).run u with
  | (kept, v') =>
    rw [run_install b options output hs hk] at h
    rcases settle_cases (packageManager options) kept started v' with
      ⟨command, rfl, rfl⟩ | ⟨e, u', he, -⟩
    · exact (PackageManager.start_ok hs).1
    · rw [he] at h
      exact absurd (congrArg Prod.fst h) (by simp)

/-! ### The check -/

/-- The run of the compiler that checks the program, if it is to be checked. -/
def checkDeeds : List Deed :=
  if options.typeCheck then [.compiled .check] else []

theorem quiet_addSources (project : Project) (fs : List TransformedFile) :
    (addSources options project fs).Quiet := by
  induction fs generalizing project with
  | nil => exact quiet_pure _
  | cons f fs ih =>
    refine ((Quiet.onlyIf _ (quiet_log _ _)).bind fun _ => quiet_pure _).bind fun project => ?_
    exact ih project

theorem follows_typeCheck (program : Program) (w : Workspace) :
    (typeCheck b program).Follows w [.compiled .check] := by
  refine (quiet_log _ _).bind_follows fun _ v _ => ?_
  refine (b.compiler.follows_run b.tools b.policy program.options program.files .check
    v).bind_quiet fun ds => ?_
  rw [requireNoDiagnostics]
  split
  · exact quiet_pure ()
  · exact (quiet_log _ _).bind fun _ => quiet_fail _

/-- **The stage of the check** runs the compiler at most once. -/
theorem follows_checkedProject (w : Workspace) :
    (checkedProject b options output).Follows w (checkDeeds options) := by
  refine (quiet_log _ _).bind_follows fun _ v _ => ?_
  refine (quiet_addSources options _ _).bind_follows fun project v _ => ?_
  refine ((quiet_log _ _).bind fun _ => quiet_pure _).bind_follows fun program v _ => ?_
  exact (Follows.onlyIf options.typeCheck (follows_typeCheck b program v)).bind_quiet
    fun _ => quiet_pure _

theorem requireNoDiagnostics_ok {ds : List Diagnostic} {w v : Workspace}
    (h : (requireNoDiagnostics ds).run w = (.ok (), v)) : ds = [] ∧ w = v := by
  rw [requireNoDiagnostics] at h
  split at h
  · rename_i hnone
    rw [run_pure, Prod.mk.injEq] at h
    exact ⟨hnone, h.2⟩
  · obtain ⟨_, u, -, h⟩ := of_run_bind_eq_ok h
    rw [run_fail] at h
    simp at h

/-- **What the stage of the check did**, between two lines of the log: it created the project that
it gives back, and checked the program of it if there is to be a check. -/
theorem of_run_checkedProject_eq_ok {w v : Workspace} {project : Project}
    (h : (checkedProject b options output).run w = (.ok project, v)) :
    ∃ line u₁ u₂ u₃, (log .info "Building project...").run w = (.ok (), u₁) ∧
      (createProject options output).run u₁ = (.ok project, u₂) ∧
      (log .debug line).run u₂ = (.ok (), u₃) ∧
      (onlyIf options.typeCheck (typeCheck b project.program)).run u₃ = (.ok (), v) := by
  obtain ⟨_, u₁, hlog, h⟩ := of_run_bind_eq_ok h
  obtain ⟨created, u₂, hcreate, h⟩ := of_run_bind_eq_ok h
  obtain ⟨program, u₃, hcompile, h⟩ := of_run_bind_eq_ok h
  obtain ⟨_, u₄, hcheck, h⟩ := of_run_bind_eq_ok h
  rw [run_pure, Prod.mk.injEq, Except.ok.injEq] at h
  obtain ⟨rfl, rfl⟩ := h
  obtain ⟨_, u₅, hlog', hprogram⟩ := of_run_bind_eq_ok hcompile
  rw [run_pure, Prod.mk.injEq, Except.ok.injEq] at hprogram
  obtain ⟨rfl, rfl⟩ := hprogram
  exact ⟨_, u₁, u₂, u₅, hlog, hcreate, hlog', hcheck⟩

/-- **A program that is emitted has passed the check**: there was nothing to say about it. -/
theorem checkedProject_ok {w v : Workspace} {project : Project} (hcheck : options.typeCheck = true)
    (h : (checkedProject b options output).run w = (.ok project, v)) :
    ∃ u, u.deeds = w.deeds ∧
      (project.program.check b.compiler b.tools b.policy).run u = (.ok [], v) := by
  obtain ⟨_, u₁, u₂, u₃, hlog, hcreate, hlog', hchecked⟩ :=
    of_run_checkedProject_eq_ok b options output h
  rw [hcheck, onlyIf, if_pos rfl] at hchecked
  obtain ⟨_, u, hlog'', hchecked⟩ := of_run_bind_eq_ok hchecked
  obtain ⟨ds, u', hds, hnone⟩ := of_run_bind_eq_ok hchecked
  obtain ⟨rfl, rfl⟩ := requireNoDiagnostics_ok hnone
  refine ⟨u, ?_, hds⟩
  calc u.deeds = u₃.deeds := (quiet_log _ _).deeds_eq hlog''
    _ = u₂.deeds := (quiet_log _ _).deeds_eq hlog'
    _ = u₁.deeds := (quiet_addSources options _ _).deeds_eq hcreate
    _ = w.deeds := (quiet_log _ _).deeds_eq hlog

/-! ### The tests -/

/-- The files that belong to tests are there to be removed if there are tests. -/
theorem testArtifacts_of_test {options : BuildOptions} (htest : options.test = true)
    (output : TransformOutput) : testArtifacts options output = TestLauncher.artifacts output := by
  rw [testArtifacts, if_pos htest]

/-- **The deeds of the tests**: the launcher is written, the tests are run, and their files are
removed unless they are kept. -/
def testDeeds : List Deed :=
  if options.test then
    .wrote (options.outDir.child TestLauncher.fileName) ::
      ((packageManager options).attempts b.tools b.policy ["run", "test"] ++
        [.ended ((packageManager options).commandFor b.tools ["run", "test"])] ++
        if options.keepTestFiles then []
        else (testArtifacts options output).map fun name =>
          .removed (options.outDir.joinText name).text)
  else []

/-- **Running the tests fulfils their deeds.** -/
theorem fulfils_runTests (w : Workspace) :
    (onlyIf options.test (runTests b options output)).Fulfils w (testDeeds b options output) := by
  by_cases htest : options.test = true
  · rw [testDeeds, if_pos htest, onlyIf, if_pos htest]
    refine (quiet_log _ _).bind_fulfils (by simp) fun _ v _ => ?_
    refine (Writer.fulfils_write b.policy _ _ v).bind fun _ u _ => ?_
    refine (PackageManager.fulfils_run u).bind fun _ u' _ => ?_
    have hremove := Fulfils.onlyIf (!options.keepTestFiles)
      (Writer.fulfils_removeAll b.policy options.outDir (testArtifacts options output) u')
    cases hkeep : options.keepTestFiles with
    | true =>
      rw [hkeep] at hremove
      exact hremove
    | false =>
      rw [hkeep] at hremove
      exact hremove
  · rw [testDeeds, if_neg htest, onlyIf, if_neg htest]
    exact fulfils_pure () w

end Build

end DenoPackager
