import DenoPackager.Proofs.Course.Compile
import Mathlib.Logic.Function.Basic

/-!
# The deeds of the passes

A pass runs the compiler, writes the files that it finds emitted and, if it emits scripts, the
small manifest. Passes come strictly one after the other, and each one needs all earlier ones to
have ended without diagnostics.

## Main definitions

* `Pass.found`: the places of the files that a pass finds emitted.
* `Pass.deeds`: the deeds of a pass, given what it finds.
* `Pass.configureAll`: the project after passes.

## Main results

* `Pass.fulfils_emitAll`: passes follow the list of their deeds.
* `Pass.reached_of_compiled`: where the compiler is run for a pass, all earlier ones reported
  nothing.
-/

namespace DenoPackager

open DenoPackager.Action

/-! ### Emitting a program -/

namespace Program

/-- **What is found emitted**: the places of the files below the scratch directory, once the
compiler has been run there. -/
def found (p : Program) (c : Compiler) (tools : Tools) (policy : Policy) (declarationsOnly : Bool)
    (transforms : List SourceTransform) (w : Workspace) : List Place :=
  let place := temporaryPlace w.tree temporaryRoot "dnt-emit-"
  let compiled := c.run tools policy p.options (p.prepared transforms)
    (.emit declarationsOnly (some ⟨.single, place⟩))
  (compiled.run (w.withDirectory place)).2.tree.filesBelow place

variable {p : Program} {c : Compiler} {tools : Tools} {policy : Policy}
  {declarationsOnly : Bool} {transforms : List SourceTransform}
  {write : EmittedFile → Action Unit} {outDir : Path}

/-- Handing on an emitted file is the deed that writing it is. -/
theorem fulfils_relay (hwrite : ∀ f w, (write f).Fulfils w [.wrote (.ofString f.path)])
    (scratch : Path) (place : Place) (w : Workspace) :
    (relay scratch outDir write place).Fulfils w
      [.wrote (.ofString (outDir.join ⟨.none, place⟩).text)] := by
  refine (quiet_look _).bind_fulfils (by simp) fun content v _ => ?_
  exact (hwrite _ v).bind_pure _

/-- **Emitting**: the compiler is run, and what it left is handed on. -/
theorem follows_emit (hwrite : ∀ f w, (write f).Fulfils w [.wrote (.ofString f.path)])
    (hout : p.options.path .outDir = .ok outDir) (w : Workspace) :
    (p.emit c tools policy declarationsOnly transforms write).Follows w
      (.compiled (phaseFor p.options (.emit declarationsOnly none)) ::
        (p.found c tools policy declarationsOnly transforms w).map fun place =>
          .wrote (.ofString (outDir.join ⟨.none, place⟩).text)) := by
  refine Follows.withTemporary ?_
  have hrun := c.follows_run tools policy p.options (p.prepared transforms)
    (.emit declarationsOnly (some ⟨.single, temporaryPlace w.tree temporaryRoot "dnt-emit-"⟩))
    (w.withDirectory (temporaryPlace w.tree temporaryRoot "dnt-emit-"))
  rw [phaseFor_emit p.options declarationsOnly _ none] at hrun
  refine hrun.bind fun ds v hv => ?_
  have hfound : p.found c tools policy declarationsOnly transforms w =
      v.tree.filesBelow (temporaryPlace w.tree temporaryRoot "dnt-emit-") := by
    rw [found, hv]
  have hlook : (look fun _ _ => p.options.path .outDir).run v = (.ok outDir, v) := by
    simp only [look, run, hout]
  have hrelay : ∀ place u, (relay ⟨.single, temporaryPlace w.tree temporaryRoot "dnt-emit-"⟩ outDir
      write place).Fulfils u [.wrote (.ofString (outDir.join ⟨.none, place⟩).text)] :=
    fulfils_relay hwrite _
  have hfiles := Fulfils.mapEach hrelay
    (v.tree.filesBelow (temporaryPlace w.tree temporaryRoot "dnt-emit-")) v
  rw [hfound]
  rw [Follows, run_bind_of_ok hlook]
  exact hfiles.follows.bind_quiet fun _ => quiet_pure _

end Program

namespace Pass

/-! ### One pass -/

/-- The path that the pass writes an emitted file to. -/
def emittedPath (pass : Pass) (package : Path) (place : Place) : Path :=
  .ofString ((Path.ofString (pass.target package).text).join ⟨.none, place⟩).text

/-- The writing of the small manifest, if the pass has one. -/
def manifestDeeds (pass : Pass) (package : Path) : List Deed :=
  match pass.moduleType? with
  | some _ => [.wrote ((pass.target package).child "package.json")]
  | none => []

/-- **The deeds of a pass** that finds emitted files at these places. -/
def deeds (pass : Pass) (package : Path) (emitted : List Place) : List Deed :=
  .compiled (.pass pass) :: emitted.map (fun place => .wrote (pass.emittedPath package place)) ++
    pass.manifestDeeds package

/-- **What the pass finds emitted** when it is begun in `w`. -/
def found (pass : Pass) (c : Compiler) (tools : Tools) (policy : Policy) (project : Project)
    (w : Workspace) : List Place :=
  project.program.found c tools policy (pass = .declarations) pass.transforms
    ((pass.compile project).run w).2

variable (c : Compiler) (tools : Tools) (compilerPolicy writerPolicy : Policy) (package : Path)
variable {pass : Pass} {project : Project}

theorem path_outDir_configure :
    (pass.configure package project).options.path .outDir =
      .ok (.ofString (pass.target package).text) := by
  cases pass <;> rfl

/-- The compiler is told which pass it is run for. -/
theorem phaseFor_configure :
    phaseFor (pass.configure package project).options (.emit (pass = .declarations) none) =
      .pass pass := by
  cases pass <;> rfl

theorem quiet_compile : (pass.compile project).Quiet :=
  (quiet_log _ _).bind fun _ => (quiet_log _ _).bind fun _ => quiet_pure _

theorem run_compile (w : Workspace) :
    (pass.compile project).run w = (.ok project.program, ((pass.compile project).run w).2) := rfl

theorem of_run_compile {program : Program} {w v : Workspace}
    (h : (pass.compile project).run w = (.ok program, v)) :
    project.program = program ∧ ((pass.compile project).run w).2 = v := by
  rw [run_compile, Prod.mk.injEq, Except.ok.injEq] at h
  exact h

theorem fulfils_writeManifest (w : Workspace) :
    (pass.writeManifest writerPolicy package).Fulfils w (pass.manifestDeeds package) := by
  cases pass with
  | declarations => exact fulfils_pure () w
  | esm => exact Writer.fulfils_write writerPolicy _ _ w
  | umd => exact Writer.fulfils_write writerPolicy _ _ w

/-- The last step of a pass does at most what the writing of the small manifest is. -/
theorem follows_conclude (result : EmitResult) (w : Workspace) :
    (pass.conclude writerPolicy package result).Follows w (pass.manifestDeeds package) := by
  rw [conclude]
  split
  · refine (fulfils_writeManifest writerPolicy package w).follows.bind_quiet fun _ => ?_
    exact (quiet_log _ _).bind fun _ => quiet_pure _
  · refine (quiet_log _ _).bind_follows fun _ v _ => ?_
    exact ⟨[], (List.append_nil _).symm, List.nil_prefix, fun ⟨a, ha⟩ => by simp [run_fail] at ha⟩

/-- A pass that emits scripts writes a small manifest. -/
theorem manifestDeeds_ne_nil (hpass : pass ≠ .declarations) : pass.manifestDeeds package ≠ [] := by
  cases pass with
  | declarations => exact absurd rfl hpass
  | esm => simp [manifestDeeds, moduleType?]
  | umd => simp [manifestDeeds, moduleType?]

/-- A pass that emits scripts is done with the writing of the small manifest. -/
theorem fulfils_conclude (hpass : pass ≠ .declarations) (result : EmitResult) (w : Workspace) :
    (pass.conclude writerPolicy package result).Fulfils w (pass.manifestDeeds package) := by
  rw [conclude]
  split
  · have hmanifest : (pass.writeManifest writerPolicy package).Fulfils w
        (pass.manifestDeeds package) := fulfils_writeManifest writerPolicy package w
    rw [← List.append_nil (pass.manifestDeeds package)]
    refine hmanifest.bind fun _ v _ => ?_
    exact (fulfils_log _ _ v).bind_pure fun _ => result
  · exact (quiet_log _ _).bind_fulfils (manifestDeeds_ne_nil package hpass) fun _ v _ =>
      fulfils_failure _ (manifestDeeds_ne_nil package hpass) v

theorem conclude_ok {result r : EmitResult} {w v : Workspace}
    (h : (pass.conclude writerPolicy package result).run w = (.ok r, v)) : r.diagnostics = [] := by
  rw [conclude] at h
  split at h
  · rename_i hnone
    obtain ⟨_, u, -, h⟩ := of_run_bind_eq_ok h
    obtain ⟨_, u, -, h⟩ := of_run_bind_eq_ok h
    rw [run_pure, Prod.mk.injEq, Except.ok.injEq] at h
    rw [← h.1]
    exact hnone
  · obtain ⟨_, u, -, h⟩ := of_run_bind_eq_ok h
    rw [run_fail] at h
    simp at h

/-- What a pass does up to its last step. -/
theorem follows_emission (w : Workspace) :
    ((pass.configure package project).program.emit c tools compilerPolicy (pass = .declarations)
        pass.transforms (writeEmitted writerPolicy)).Follows w
      (.compiled (.pass pass) ::
        ((pass.configure package project).program.found c tools compilerPolicy
          (pass = .declarations) pass.transforms w).map
          fun place => .wrote (pass.emittedPath package place)) := by
  have hphase : phaseFor (pass.configure package project).options
      (.emit (pass = .declarations) none) = .pass pass := phaseFor_configure package
  rw [← hphase]
  refine Program.follows_emit ?_ (path_outDir_configure package) w
  intro f v
  exact Writer.fulfils_writeMarked writerPolicy _ f.text f.mark v

/-- **A pass follows its deeds.** -/
theorem follows_run (w : Workspace) :
    (pass.run c tools compilerPolicy writerPolicy package (pass.configure package project)).Follows w
      (pass.deeds package (pass.found c tools compilerPolicy (pass.configure package project) w)) := by
  refine quiet_compile.bind_follows fun program v hv => ?_
  obtain ⟨rfl, rfl⟩ := of_run_compile hv
  refine (follows_emission c tools compilerPolicy writerPolicy package _).bind fun result v _ => ?_
  exact follows_conclude writerPolicy package result v

/-- **A pass that emits scripts fulfils its deeds.** -/
theorem fulfils_run (hpass : pass ≠ .declarations) (w : Workspace) :
    (pass.run c tools compilerPolicy writerPolicy package (pass.configure package project)).Fulfils w
      (pass.deeds package (pass.found c tools compilerPolicy (pass.configure package project) w)) := by
  refine quiet_compile.bind_fulfils (by simp [deeds]) fun program v hv => ?_
  obtain ⟨rfl, rfl⟩ := of_run_compile hv
  refine (follows_emission c tools compilerPolicy writerPolicy package _).bind_fulfils
    (manifestDeeds_ne_nil package hpass) fun result v _ => ?_
  exact fulfils_conclude writerPolicy package hpass result v

/-- A pass that succeeded reported nothing. -/
theorem run_ok {r : EmitResult} {w v : Workspace}
    (h : (pass.run c tools compilerPolicy writerPolicy package project).run w = (.ok r, v)) :
    r.diagnostics = [] := by
  obtain ⟨program, u, -, h⟩ := of_run_bind_eq_ok h
  obtain ⟨result, u, -, h⟩ := of_run_bind_eq_ok h
  exact conclude_ok writerPolicy package h

/-! ### Passes in order -/

/-- The project after passes. -/
def configureAll (package : Path) (project : Project) (passes : List Pass) : Project :=
  passes.foldl (fun project pass => pass.configure package project) project

/-- **One pass after the other.** -/
theorem run_emitAll_cons (passes : List Pass) (w : Workspace) :
    (emitAll c tools compilerPolicy writerPolicy package project (pass :: passes)).run w =
      (pass.run c tools compilerPolicy writerPolicy package (pass.configure package project) >>=
        fun result => emitAll c tools compilerPolicy writerPolicy package
          (pass.configure package project) passes >>=
        fun results => pure ((pass, result) :: results)).run w := by
  rw [emitAll, runAll, run_bind]
  match hr : (pass.run c tools compilerPolicy writerPolicy package
      (pass.configure package project)).run w with
  | (.error e, v) =>
    rw [run_bind_of_ok (run_attempt hr), run_bind_of_error hr]
    rfl
  | (.ok result, v) =>
    rw [run_bind_of_ok (run_attempt hr), run_bind_of_ok hr, emitAll, run_bind, run_bind, run_bind]
    match (runAll c tools compilerPolicy writerPolicy package (pass.configure package project)
      passes).run v with
    | (.ok (_, .ok results), u) => rfl
    | (.ok (_, .error e), u) => rfl
    | (.error e, u) => rfl

/-- What the passes find emitted: each one what is there when all earlier ones have succeeded. -/
def FoundBy (c : Compiler) (tools : Tools) (compilerPolicy writerPolicy : Policy) (package : Path)
    (project : Project) (passes : List Pass) (w : Workspace) (emitted : Pass → List Place) : Prop :=
  ∀ before pass after, passes = before ++ pass :: after → ∀ results v,
    (emitAll c tools compilerPolicy writerPolicy package project before).run w =
      (.ok results, v) →
    emitted pass = pass.found c tools compilerPolicy
      (pass.configure package (configureAll package project before)) v

/-- What is found depends on nothing but what these passes find. -/
theorem FoundBy.congr {passes : List Pass} {w : Workspace} {emitted emitted' : Pass → List Place}
    (h : FoundBy c tools compilerPolicy writerPolicy package project passes w emitted)
    (hsame : ∀ q ∈ passes, emitted' q = emitted q) :
    FoundBy c tools compilerPolicy writerPolicy package project passes w emitted' := by
  intro before q after hsplit results v hv
  rw [hsame q (by rw [hsplit]; simp)]
  exact h before q after hsplit results v hv

/-- What the first pass finds, and what the later ones find from wherever it ends. -/
theorem FoundBy.cons {passes : List Pass} {w : Workspace} {emitted : Pass → List Place}
    (hfirst : emitted pass =
      pass.found c tools compilerPolicy (pass.configure package project) w)
    (hrest : FoundBy c tools compilerPolicy writerPolicy package (pass.configure package project)
      passes ((pass.run c tools compilerPolicy writerPolicy package
        (pass.configure package project)).run w).2 emitted) :
    FoundBy c tools compilerPolicy writerPolicy package project (pass :: passes) w emitted := by
  intro before q after hsplit results v hv
  cases before with
  | nil =>
    obtain ⟨rfl, rfl⟩ := List.cons.inj hsplit
    rw [hfirst, (Prod.mk.inj hv).2]
    rfl
  | cons p before =>
    obtain ⟨rfl, htail⟩ := List.cons.inj hsplit
    rw [run_emitAll_cons] at hv
    obtain ⟨result, u, hu, hv⟩ := of_run_bind_eq_ok hv
    obtain ⟨results, u', hu', hv⟩ := of_run_bind_eq_ok hv
    rw [hu] at hrest
    rw [run_pure, Prod.mk.injEq] at hv
    rw [← hv.2]
    exact hrest before q after htail results u' hu'

/-- **Passes in order fulfil their deeds**, as long as the last one emits scripts. -/
theorem fulfils_emitAll {passes : List Pass} (hnodup : passes.Nodup)
    (hlast : passes.getLast? ≠ some .declarations) (project : Project) (w : Workspace) :
    ∃ emitted : Pass → List Place,
      (emitAll c tools compilerPolicy writerPolicy package project passes).Fulfils w
        (passes.flatMap fun pass => pass.deeds package (emitted pass)) ∧
      FoundBy c tools compilerPolicy writerPolicy package project passes w emitted := by
  induction passes generalizing project w with
  | nil =>
    refine ⟨fun _ => [], fulfils_pure [] w, ?_⟩
    intro before pass after h
    simp at h
  | cons pass passes ih =>
    obtain ⟨hnew, hnodup⟩ := List.nodup_cons.1 hnodup
    -- The later passes are followed from wherever this one ends.
    obtain ⟨later, hlater, hfound⟩ := ih hnodup (fun h => hlast (by rw [List.getLast?_cons, h]; rfl))
      (pass.configure package project) ((pass.run c tools compilerPolicy writerPolicy package
        (pass.configure package project)).run w).2
    have hothers : ∀ q ∈ passes, Function.update later pass (pass.found c tools compilerPolicy
        (pass.configure package project) w) q = later q := by
      intro q hq
      have hne : q ≠ pass := by
        rintro rfl
        exact hnew hq
      exact Function.update_of_ne hne _ _
    refine ⟨Function.update later pass (pass.found c tools compilerPolicy
      (pass.configure package project) w), ?_,
      .cons c tools compilerPolicy writerPolicy package (Function.update_self _ _ _)
        (hfound.congr c tools compilerPolicy writerPolicy package hothers)⟩
    have hplan : (passes.flatMap fun q => q.deeds package (Function.update later pass
        (pass.found c tools compilerPolicy (pass.configure package project) w) q)) =
        passes.flatMap fun q => q.deeds package (later q) := by
      rw [List.flatMap_def, List.flatMap_def,
        List.map_congr_left fun q hq => by rw [hothers q hq]]
    rw [List.flatMap_cons, hplan, Function.update_self]
    refine Fulfils.congr (run_emitAll_cons c tools compilerPolicy writerPolicy package passes w) ?_
    have hnext : ∀ result v, (pass.run c tools compilerPolicy writerPolicy package
        (pass.configure package project)).run w = (.ok result, v) →
        (emitAll c tools compilerPolicy writerPolicy package (pass.configure package project)
          passes >>= fun results => pure ((pass, result) :: results)).Fulfils v
          (passes.flatMap fun q => q.deeds package (later q)) := by
      intro result v hv
      rw [hv] at hlater
      exact hlater.bind_pure _
    by_cases hpass : pass = .declarations
    · refine (follows_run c tools compilerPolicy writerPolicy package w).bind_fulfils ?_ hnext
      cases passes with
      | nil => exact absurd (congrArg some hpass) hlast
      | cons q passes => simp [deeds]
    · exact (fulfils_run c tools compilerPolicy writerPolicy package hpass w).bind hnext

/-- Passes in order follow some plan in any case. -/
theorem follows_emitAll (passes : List Pass) (project : Project) (w : Workspace) :
    ∃ plan, (emitAll c tools compilerPolicy writerPolicy package project passes).Follows w plan := by
  induction passes generalizing project w with
  | nil => exact ⟨[], (fulfils_pure [] w).follows⟩
  | cons pass passes ih =>
    obtain ⟨plan, hplan⟩ := ih (pass.configure package project) ((pass.run c tools compilerPolicy
      writerPolicy package (pass.configure package project)).run w).2
    refine ⟨_, Follows.congr (run_emitAll_cons c tools compilerPolicy writerPolicy package passes w)
      ((follows_run c tools compilerPolicy writerPolicy package w).bind (q := plan)
        fun result v hv => ?_)⟩
    rw [hv] at hplan
    exact hplan.bind_quiet fun _ => quiet_pure _

/-- The compiler is run for no other pass than the one at hand. -/
theorem eq_of_compiled_mem_deeds {q : Pass} {emitted : List Place}
    (h : .compiled (.pass pass) ∈ q.deeds package emitted) : pass = q := by
  have hmanifest : .compiled (.pass pass) ∉ q.manifestDeeds package := by
    cases q <;> simp [manifestDeeds, moduleType?]
  simpa [deeds, hmanifest] using h

/-- **Getting to a pass.** Where the compiler is run for a pass, all earlier ones have succeeded
and reported nothing. -/
theorem reached_of_compiled {before after : List Pass} {done : List Deed} (hnew : pass ∉ before)
    {w : Workspace}
    (hdone : ((emitAll c tools compilerPolicy writerPolicy package project
      (before ++ pass :: after)).run w).2.deeds = w.deeds ++ done)
    (hmem : .compiled (.pass pass) ∈ done) :
    ∃ results v, (emitAll c tools compilerPolicy writerPolicy package project before).run w =
        (.ok results, v) ∧ ∀ r ∈ results, r.2.diagnostics = [] := by
  induction before generalizing project w done with
  | nil => exact ⟨[], w, rfl, fun r hr => absurd hr List.not_mem_nil⟩
  | cons q before ih =>
    rw [List.mem_cons, not_or] at hnew
    obtain ⟨hne, hnew⟩ := hnew
    rw [List.cons_append, run_emitAll_cons] at hdone
    have hrest : ∀ result v, ∃ plan, (emitAll c tools compilerPolicy writerPolicy package
        (q.configure package project) (before ++ pass :: after) >>=
        fun results => pure ((q, result) :: results)).Follows v plan := by
      intro result v
      obtain ⟨plan, hplan⟩ := follows_emitAll c tools compilerPolicy writerPolicy package
        (before ++ pass :: after) (q.configure package project) v
      exact ⟨plan, hplan.bind_quiet fun _ => quiet_pure _⟩
    obtain ⟨result, v, later, hv, hlater, -, hmem⟩ :=
      (follows_run c tools compilerPolicy writerPolicy package w).reached
        (fun h => hne (eq_of_compiled_mem_deeds package h)) (fun result v _ => hrest result v)
        hdone hmem
    rw [deeds_bind_pure] at hlater
    obtain ⟨results, u, hu, hnone⟩ := ih hnew hlater hmem
    refine ⟨(q, result) :: results, u, ?_, ?_⟩
    · rw [run_emitAll_cons, run_bind_of_ok hv, run_bind_of_ok hu, run_pure]
    · intro r hr
      rcases List.mem_cons.1 hr with rfl | hr
      · exact run_ok c tools compilerPolicy writerPolicy package hv
      · exact hnone r hr

end Pass

end DenoPackager
