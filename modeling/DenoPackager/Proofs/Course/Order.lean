import DenoPackager.Proofs.Course.Stages

/-!
# The order of a build

What a build does is the start of one list of deeds, cut where it first fails. The list depends
on the options, on the transformed program and on what the passes find emitted, and on nothing
else: no behaviour of the package manager or of the compiler makes a build do things in another
order, or go on after a failure.

## Main definitions

* `Build.order`: the deeds of a build, in order.
* `Build.Orderly`: what holds of the deeds of any build.

## Main results

* `Build.orderly`: every build is orderly.
-/

namespace DenoPackager.Build

open DenoPackager.Action

/-- The writing of the manifest and the installation. -/
def equipDeeds (b : BuildTools) (options : BuildOptions) (output : TransformOutput) : List Deed :=
  packageDeeds options output ++ installDeeds b options output

/-- The deeds of the passes that find emitted files at these places. -/
def passDeeds (options : BuildOptions) (emitted : Pass → List Place) : List Deed :=
  (Pass.all options.declaration).flatMap fun pass => pass.deeds options.outDir (emitted pass)

/-- **The deeds of a build**, in order: the manifest is written, packages are installed, the
program is checked, emitted pass by pass, and tested. -/
def order (b : BuildTools) (options : BuildOptions) (output : TransformOutput)
    (emitted : Pass → List Place) : List Deed :=
  equipDeeds b options output ++
    (checkDeeds options ++ (passDeeds options emitted ++ testDeeds b options output))

/-! ### What is left to do after each stage -/

section Rest

variable (b : BuildTools) (options : BuildOptions) (output : TransformOutput)

/-- What is left to do after the passes. -/
def afterPasses : Action BuildResult := do
  Action.onlyIf options.test (runTests b options output)
  Action.log .info "Complete!"
  let w ← Action.get
  pure { outDir := options.outDir, written := w.written, warnings := output.warnings }

/-- What is left to do after the check. -/
def afterCheck (project : Project) : Action BuildResult := do
  let _ ← emitAll b options project
  afterPasses b options output

/-- What is left to do after the installation. -/
def afterInstall : Action BuildResult := do
  let project ← checkedProject b options output
  afterCheck b options output project

/-- What is left to do once the program is transformed. -/
def afterTransform : Action BuildResult := do
  equip b options output
  afterInstall b options output

theorem build_eq : build b options = prepare b options >>= afterTransform b options := rfl

theorem fulfils_equip (w : Workspace) :
    (equip b options output).Fulfils w (equipDeeds b options output) := by
  refine (fulfils_writePackageFiles b options output _ w).bind fun _ v _ => ?_
  have hne : installDeeds b options output ≠ [] := by simp [installDeeds]
  refine (quiet_log _ _).bind_fulfils hne fun _ u _ => ?_
  exact fulfils_install b options output u

theorem equip_ok {w v : Workspace} (h : (equip b options output).run w = (.ok (), v)) :
    (packageManager options).mayStart b.tools b.policy ["install"] = true := by
  obtain ⟨_, u, -, h⟩ := of_run_bind_eq_ok h
  obtain ⟨_, u, -, h⟩ := of_run_bind_eq_ok h
  exact install_ok b options output h

theorem fulfils_afterPasses (w : Workspace) :
    (afterPasses b options output).Fulfils w (testDeeds b options output) := by
  rw [← List.append_nil (testDeeds b options output)]
  refine (fulfils_runTests b options output w).bind fun _ v _ => ?_
  exact (fulfils_log _ _ v).bind (q := []) fun _ u _ => fulfils_pure _ u

theorem nodup_all (declaration : Bool) : (Pass.all declaration).Nodup := by
  cases declaration <;> decide

theorem getLast?_all (declaration : Bool) :
    (Pass.all declaration).getLast? ≠ some .declarations := by
  cases declaration <;> decide

theorem passDeeds_ne_nil (emitted : Pass → List Place) : passDeeds options emitted ≠ [] := by
  simp [passDeeds, Pass.all, Pass.deeds]

/-- What the passes of a build find emitted, if it goes on with `project` in `w`. -/
def FoundBy (project : Project) (w : Workspace) (emitted : Pass → List Place) : Prop :=
  Pass.FoundBy b.compiler b.tools b.policy b.policy options.outDir project
    (Pass.all options.declaration) w emitted

theorem fulfils_afterCheck (project : Project) (w : Workspace) :
    ∃ emitted, (afterCheck b options output project).Fulfils w
        (passDeeds options emitted ++ testDeeds b options output) ∧
      FoundBy b options project w emitted := by
  obtain ⟨emitted, hplan, hfound⟩ := Pass.fulfils_emitAll b.compiler b.tools b.policy b.policy
    options.outDir (nodup_all options.declaration) (getLast?_all options.declaration) project w
  exact ⟨emitted, hplan.bind fun _ v _ => fulfils_afterPasses b options output v, hfound⟩

theorem fulfils_afterInstall (w : Workspace) :
    ∃ emitted, (afterInstall b options output).Fulfils w
        (checkDeeds options ++ (passDeeds options emitted ++ testDeeds b options output)) ∧
      ∀ project v, (checkedProject b options output).run w = (.ok project, v) →
        FoundBy b options project v emitted := by
  have hcheck := follows_checkedProject b options output w
  have hne : ∀ emitted, passDeeds options emitted ++ testDeeds b options output ≠ [] := by
    intro emitted h
    exact passDeeds_ne_nil options emitted (List.append_eq_nil_iff.1 h).1
  match hr : (checkedProject b options output).run w with
  | (.ok project, v) =>
    obtain ⟨emitted, hplan, hfound⟩ := fulfils_afterCheck b options output project v
    refine ⟨emitted, hcheck.bind_fulfils (hne emitted) ?_, ?_⟩
    · intro project' v' hr'
      rw [hr, Prod.mk.injEq, Except.ok.injEq] at hr'
      obtain ⟨rfl, rfl⟩ := hr'
      exact hplan
    · intro project' v' hr'
      rw [Prod.mk.injEq, Except.ok.injEq] at hr'
      obtain ⟨rfl, rfl⟩ := hr'
      exact hfound
  | (.error e, v) =>
    refine ⟨fun _ => [], hcheck.bind_fulfils (hne _) ?_, ?_⟩
    · intro project' v' hr'
      rw [hr] at hr'
      simp at hr'
    · intro project' v' hr'
      simp at hr'

theorem fulfils_afterTransform (w : Workspace) :
    ∃ emitted, (afterTransform b options output).Fulfils w (order b options output emitted) ∧
      ∀ u, (equip b options output).run w = (.ok (), u) →
        ∀ project v, (checkedProject b options output).run u = (.ok project, v) →
          FoundBy b options project v emitted := by
  obtain ⟨emitted, hplan, hfound⟩ :=
    fulfils_afterInstall b options output ((equip b options output).run w).2
  refine ⟨emitted, (fulfils_equip b options output w).bind ?_, ?_⟩
  · intro _ u hu
    rw [hu] at hplan
    exact hplan
  · intro u hu
    rw [hu] at hfound
    exact hfound

end Rest

/-! ### Every build is orderly -/

/-- **A pass is cleared** when the installation has succeeded, the check, if there is one, had
nothing to say, and so had all passes before it. What the pass finds emitted is then what the
compiler leaves. -/
def Cleared (b : BuildTools) (options : BuildOptions) (output : TransformOutput) (w : Workspace)
    (emitted : Pass → List Place) (before : List Pass) (pass : Pass) : Prop :=
  ∃ installed project checked results reached,
    (equip b options output).run w = (.ok (), installed) ∧
    (checkedProject b options output).run installed = (.ok project, checked) ∧
    (options.typeCheck = true → ∃ u, u.deeds = installed.deeds ∧
      (project.program.check b.compiler b.tools b.policy).run u = (.ok [], checked)) ∧
    (Pass.emitAll b.compiler b.tools b.policy b.policy options.outDir project before).run checked =
      (.ok results, reached) ∧
    (∀ r ∈ results, r.2.diagnostics = []) ∧
    emitted pass = pass.found b.compiler b.tools b.policy
      (pass.configure options.outDir (Pass.configureAll options.outDir project before)) reached

/-- **What holds of the deeds of any build** that goes on with a transformed program in `w`. -/
structure Orderly (b : BuildTools) (options : BuildOptions) (output : TransformOutput)
    (w : Workspace) (emitted : Pass → List Place) (done : List Deed)
    (result : Except Failure BuildResult) : Prop where
  /-- The deeds are the start of the list. -/
  inOrder : done <+: order b options output emitted
  /-- They are all of it exactly if the build succeeds. -/
  complete : (∃ r, result = .ok r) ↔ done = order b options output emitted
  /-- Before any run of the compiler the installation was started and ended well. -/
  installed : ∀ before phase after, done = before ++ .compiled phase :: after →
    .started ((packageManager options).commandFor b.tools ["install"]) ∈ before ∧
      .ended ((packageManager options).commandFor b.tools ["install"]) ∈ before
  /-- The compiler is run for no pass that is not cleared. -/
  cleared : ∀ before pass after, Pass.all options.declaration = before ++ pass :: after →
    .compiled (.pass pass) ∈ done → Cleared b options output w emitted before pass

section Reached

variable {b : BuildTools} {options : BuildOptions} {output : TransformOutput} {w : Workspace}
  {done : List Deed}

theorem compiled_not_mem_attempts (m : PackageManager) (args : List String) (phase : Phase) :
    .compiled phase ∉ m.attempts b.tools b.policy args := by
  rw [PackageManager.attempts]
  split <;> simp

theorem compiled_not_mem_equipDeeds (phase : Phase) :
    .compiled phase ∉ equipDeeds b options output := by
  have hpackage : .compiled phase ∉ packageDeeds options output := by
    rw [packageDeeds]
    split <;> simp
  have hsource : .compiled phase ∉ sourceDeeds options output := by
    rw [sourceDeeds]
    split <;> simp
  simp [equipDeeds, installDeeds, hpackage, hsource, compiled_not_mem_attempts]

theorem compiled_not_mem_testDeeds (phase : Phase) :
    .compiled phase ∉ testDeeds b options output := by
  rw [testDeeds]
  split
  · cases options.keepTestFiles <;> simp [compiled_not_mem_attempts]
  · simp

/-- Where the compiler is run, everything was put in place. -/
theorem equip_of_compiled {phase : Phase}
    (hdone : ((afterTransform b options output).run w).2.deeds = w.deeds ++ done)
    (hmem : .compiled phase ∈ done) :
    ∃ v later, (equip b options output).run w = (.ok (), v) ∧
      ((afterInstall b options output).run v).2.deeds = v.deeds ++ later ∧
      done = equipDeeds b options output ++ later ∧ .compiled phase ∈ later := by
  have hrest : ∀ u : Unit, ∀ v, (equip b options output).run w = (.ok u, v) →
      ∃ plan, (afterInstall b options output).Follows v plan := by
    intro _ v _
    obtain ⟨emitted, hplan, -⟩ := fulfils_afterInstall b options output v
    exact ⟨_, hplan.follows⟩
  obtain ⟨_, v, later, hv, hlater, heq, hmem⟩ := (fulfils_equip b options output w).follows.reached
    (compiled_not_mem_equipDeeds phase) hrest hdone hmem
  exact ⟨v, later, hv, hlater, heq, hmem⟩

/-- Where the compiler is run for a pass, the stage of the check succeeded. -/
theorem checked_of_compiled {pass : Pass}
    (hdone : ((afterInstall b options output).run w).2.deeds = w.deeds ++ done)
    (hmem : .compiled (.pass pass) ∈ done) :
    ∃ project v later, (checkedProject b options output).run w = (.ok project, v) ∧
      ((afterCheck b options output project).run v).2.deeds = v.deeds ++ later ∧
      .compiled (.pass pass) ∈ later := by
  have hrest : ∀ project v, (checkedProject b options output).run w = (.ok project, v) →
      ∃ plan, (afterCheck b options output project).Follows v plan := by
    intro project v _
    obtain ⟨emitted, hplan, -⟩ := fulfils_afterCheck b options output project v
    exact ⟨_, hplan.follows⟩
  have hnot : .compiled (.pass pass) ∉ checkDeeds options := by
    rw [checkDeeds]
    split <;> simp
  obtain ⟨project, v, later, hv, hlater, -, hmem⟩ :=
    (follows_checkedProject b options output w).reached hnot hrest hdone hmem
  exact ⟨project, v, later, hv, hlater, hmem⟩

/-- Where the compiler is run for a pass, all passes before it succeeded. -/
theorem passes_of_compiled {before after : List Pass} {pass : Pass} {project : Project}
    (hsplit : Pass.all options.declaration = before ++ pass :: after)
    (hdone : ((afterCheck b options output project).run w).2.deeds = w.deeds ++ done)
    (hmem : .compiled (.pass pass) ∈ done) :
    ∃ results v, (Pass.emitAll b.compiler b.tools b.policy b.policy options.outDir project
        before).run w = (.ok results, v) ∧ ∀ r ∈ results, r.2.diagnostics = [] := by
  obtain ⟨plan, hplan⟩ := Pass.follows_emitAll b.compiler b.tools b.policy b.policy options.outDir
    (Pass.all options.declaration) project w
  obtain ⟨first, hfirst, hmem⟩ := hplan.mem_first
    (fun _ v _ => (fulfils_afterPasses b options output v).follows)
    (compiled_not_mem_testDeeds _) hdone hmem
  rw [hsplit] at hfirst
  refine Pass.reached_of_compiled b.compiler b.tools b.policy b.policy options.outDir ?_ hfirst hmem
  have hnodup := nodup_all options.declaration
  rw [hsplit, List.nodup_append] at hnodup
  intro h
  exact hnodup.2.2 pass h pass (by simp) rfl

end Reached

/-- What comes before a deed in a list includes any part that the deed is not in. -/
theorem prefix_of_not_mem {before after first later : List Deed} {d : Deed} (h : d ∉ first)
    (heq : before ++ d :: after = first ++ later) : first <+: before := by
  rcases List.append_eq_append_iff.1 heq with ⟨rest, hrest, htail⟩ | ⟨rest, hrest, -⟩
  · cases rest with
    | nil =>
      rw [List.append_nil] at hrest
      exact hrest ▸ List.prefix_refl _
    | cons c rest =>
      rw [List.cons_append, List.cons.injEq] at htail
      rw [hrest, ← htail.1] at h
      exact absurd (by simp) h
  · exact ⟨rest, hrest.symm⟩

/-- The installation that ended well was started. -/
theorem started_mem_equipDeeds (b : BuildTools) (options : BuildOptions) (output : TransformOutput)
    (h : (packageManager options).mayStart b.tools b.policy ["install"] = true) :
    .started ((packageManager options).commandFor b.tools ["install"]) ∈
      equipDeeds b options output ∧
    .ended ((packageManager options).commandFor b.tools ["install"]) ∈
      equipDeeds b options output := by
  simp [equipDeeds, installDeeds, PackageManager.attempts, h]

/-- A build is orderly from the point where the program is transformed. -/
theorem orderly_afterTransform (b : BuildTools) (options : BuildOptions)
    (output : TransformOutput) (w : Workspace) :
    ∃ done emitted, ((afterTransform b options output).run w).2.deeds = w.deeds ++ done ∧
      Orderly b options output w emitted done ((afterTransform b options output).run w).1 := by
  obtain ⟨emitted, ⟨done, hdone, hpre, hall⟩, hfound⟩ := fulfils_afterTransform b options output w
  refine ⟨done, emitted, hdone, hpre, hall, ?_, ?_⟩
  · intro before phase after hsplit
    have hmem : .compiled phase ∈ done := by simp [hsplit]
    obtain ⟨u, later, hu, -, heq, -⟩ := equip_of_compiled hdone hmem
    have hbefore := prefix_of_not_mem (compiled_not_mem_equipDeeds phase) (hsplit.symm.trans heq)
    obtain ⟨hstarted, hended⟩ :=
      started_mem_equipDeeds b options output (equip_ok b options output hu)
    exact ⟨hbefore.subset hstarted, hbefore.subset hended⟩
  · intro before pass after hsplit hmem
    obtain ⟨u, later, hu, hlater, -, hmem⟩ := equip_of_compiled hdone hmem
    obtain ⟨project, u', later, hu', hlater, hmem⟩ := checked_of_compiled hlater hmem
    obtain ⟨results, u'', hu'', hnone⟩ := passes_of_compiled hsplit hlater hmem
    refine ⟨u, project, u', results, u'', hu, hu', ?_, hu'', hnone, ?_⟩
    · intro hcheck
      exact checkedProject_ok b options output hcheck hu'
    · exact hfound u hu project u' hu' before pass after hsplit results u'' hu''

/-- **Every build is orderly**, whatever the package manager and the compiler do. A build whose
program cannot be transformed does nothing. -/
theorem orderly (tools : Tools) (policy : Policy) (compiler : Compiler) (options : BuildOptions)
    (w : Workspace) :
    ∃ done,
      ((build ⟨tools, policy, compiler, none⟩ options).run w).2.deeds = w.deeds ++ done ∧
      ((done = [] ∧ (∃ e v, (prepare ⟨tools, policy, compiler, none⟩ options).run w =
          (.error e, v) ∧ ((build ⟨tools, policy, compiler, none⟩ options).run w).1 = .error e)) ∨
        ∃ output v emitted, (prepare ⟨tools, policy, compiler, none⟩ options).run w =
          (.ok output, v) ∧
          Orderly ⟨tools, policy, compiler, none⟩ options output v emitted done
            ((build ⟨tools, policy, compiler, none⟩ options).run w).1) := by
  have hquiet := quiet_prepare options (b := ⟨tools, policy, compiler, none⟩) rfl
  rw [build_eq]
  match hr : (prepare ⟨tools, policy, compiler, none⟩ options).run w with
  | (.error e, v) =>
    rw [run_bind_of_error hr]
    refine ⟨[], ?_, .inl ⟨rfl, e, v, rfl, rfl⟩⟩
    rw [List.append_nil]
    exact hquiet.deeds_eq hr
  | (.ok output, v) =>
    obtain ⟨done, emitted, hdone, horderly⟩ :=
      orderly_afterTransform ⟨tools, policy, compiler, none⟩ options output v
    rw [run_bind_of_ok hr, hdone, hquiet.deeds_eq hr]
    exact ⟨done, rfl, .inr ⟨output, v, emitted, rfl, horderly⟩⟩

end DenoPackager.Build
