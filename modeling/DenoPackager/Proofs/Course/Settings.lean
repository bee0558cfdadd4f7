import DenoPackager.Proofs.Course.Passes
import DenoPackager.Proofs.Files.Emission
import Mathlib.Data.List.Induction

/-!
# The settings of a pass

Every pass changes the options of one and the same project, and nothing changes them back. A
pass sets the output directory and whether there are declarations, so that these never come from
an earlier pass. The module format is set by the passes that emit scripts, and the interoperation
of module systems by the UMD pass alone: both stay behind in the project for the passes after it.

## Main definitions

* `Pass.changes`, `Pass.named`: what a pass changes, by setting and by name.
* `Pass.callEach`: single calls of passes on one project, each made whatever came of the others.
* `Pass.lastFormat?`: the module format that passes leave behind.

## Main results

* `CompilerOptions.merge_named`: overriding by name is changing the settings.
* `Pass.run_callEach`: the project after single calls is configured by all of them.
* `Pass.settings_left`: which settings a pass is compiled with after other passes, and when they
  are its own.
-/

namespace DenoPackager

open DenoPackager.Action

/-! ### Changing options -/

theorem CompilerOptions.ext_get {o o' : CompilerOptions} (h : ∀ s, o.get s = o'.get s) : o = o' := by
  cases o
  cases o'
  exact congrArg CompilerOptions.mk (funext h)

/-- A change that sets other settings leaves a setting as it is. -/
theorem CompilerOptions.get_setAll_of_ne (o : CompilerOptions)
    {changes : List (Setting × SettingValue)} {s : Setting} (h : ∀ c ∈ changes, c.1 ≠ s) :
    (o.setAll changes).get s = o.get s := by
  induction changes generalizing o with
  | nil => rfl
  | cons c changes ih =>
    rw [List.forall_mem_cons] at h
    exact (ih (o.set c.1 c.2) h.2).trans (set_other o c.2 h.1.symm)

theorem Setting.ofName?_name (s : Setting) : Setting.ofName? s.name = some s := by
  cases s <;> rfl

/-- **Overriding by name** is changing the settings of these names. -/
theorem CompilerOptions.merge_named (o : CompilerOptions)
    (changes : List (Setting × SettingValue)) :
    o.merge (changes.map fun c => (c.1.name, c.2)) = .ok (o.setAll changes) := by
  have hknown : unknownNames ((changes.map fun c => (c.1.name, c.2)).map Prod.fst) = [] := by
    have hnone : ((changes.map fun c => (c.1.name, c.2)).map Prod.fst).filter
        (fun n => (Setting.ofName? n).isNone) = [] := by
      simp only [List.map_map, List.filter_eq_nil_iff, List.forall_mem_map, Function.comp_apply,
        Setting.ofName?_name]
      simp
    rw [unknownNames, hnone, List.eraseDups_nil, List.mergeSort_nil]
  rw [merge, hknown, List.filterMap_map]
  simp [Setting.ofName?_name]

namespace Pass

/-! ### What one pass changes -/

/-- **What the pass changes**: the output directory, and its overrides. -/
def changes (pass : Pass) (package : Path) : List (Setting × SettingValue) :=
  (.outDir, .raw (.str (pass.target package).text)) :: pass.overrides

/-- What the pass changes, by name. -/
def named (pass : Pass) (package : Path) : List (String × SettingValue) :=
  (pass.changes package).map fun c => (c.1.name, c.2)

/-- The format of the modules that the pass emits, if it emits scripts. -/
def format? : Pass → Option ModuleFormat
  | .declarations => none
  | .esm => some .es2015
  | .umd => some .umd

variable {pass : Pass} {package : Path} {project : Project}

/-- Overriding options by what the pass changes. -/
theorem merge_named_eq_ok_iff {o o' : CompilerOptions} :
    o.merge (pass.named package) = .ok o' ↔ o' = o.setAll (pass.changes package) := by
  rw [named, o.merge_named, Except.ok.injEq]
  exact eq_comm

theorem configure_files : (pass.configure package project).files = project.files := rfl

theorem get_configure_outDir :
    (pass.configure package project).options.get .outDir =
      .raw (.str (pass.target package).text) := by
  cases pass <;> rfl

theorem get_configure_declaration :
    (pass.configure package project).options.get .declaration =
      .raw (.bool (pass = .declarations)) := by
  cases pass <;> rfl

theorem get_configure_moduleFormat :
    (pass.configure package project).options.get .moduleFormat =
      (pass.format?.map .format).getD (project.options.get .moduleFormat) := by
  cases pass <;> rfl

theorem get_configure_esModuleInterop :
    (pass.configure package project).options.get .esModuleInterop =
      if pass = .umd then .raw (.bool true) else project.options.get .esModuleInterop := by
  cases pass <;> rfl

/-- No pass changes any other setting. -/
theorem get_configure_of_ne {s : Setting} (hdir : s ≠ .outDir) (hdeclaration : s ≠ .declaration)
    (hformat : s ≠ .moduleFormat) (hinterop : s ≠ .esModuleInterop) :
    (pass.configure package project).options.get s = project.options.get s := by
  refine project.options.get_setAll_of_ne ?_
  cases pass <;> simp [overrides, hdir.symm, hdeclaration.symm, hformat.symm, hinterop.symm]

/-! ### What passes leave behind -/

/-- **The module format that passes leave behind**: that of the last one that emits scripts. -/
def lastFormat? (passes : List Pass) : Option ModuleFormat :=
  (passes.filterMap format?).getLast?

theorem lastFormat?_concat (passes : List Pass) (pass : Pass) :
    lastFormat? (passes ++ [pass]) = pass.format?.or (lastFormat? passes) := by
  cases h : pass.format? <;> simp [lastFormat?, List.filterMap_append, h]

theorem configureAll_concat (passes : List Pass) :
    configureAll package project (passes ++ [pass]) =
      pass.configure package (configureAll package project passes) := by
  rw [configureAll, List.foldl_append]
  rfl

/-- Passes leave the sources as they are. -/
theorem configureAll_files (passes : List Pass) :
    (configureAll package project passes).files = project.files := by
  induction passes using List.reverseRecOn with
  | nil => rfl
  | append_singleton passes pass ih => rw [configureAll_concat, configure_files, ih]

theorem get_configureAll_moduleFormat (passes : List Pass) :
    (configureAll package project passes).options.get .moduleFormat =
      ((lastFormat? passes).map .format).getD (project.options.get .moduleFormat) := by
  induction passes using List.reverseRecOn with
  | nil => rfl
  | append_singleton passes pass ih =>
    rw [configureAll_concat, get_configure_moduleFormat, ih, lastFormat?_concat]
    cases pass.format? <;> rfl

/-- **The interoperation of module systems is never turned off again.** -/
theorem get_configureAll_esModuleInterop (passes : List Pass) :
    (configureAll package project passes).options.get .esModuleInterop =
      if .umd ∈ passes then .raw (.bool true) else project.options.get .esModuleInterop := by
  induction passes using List.reverseRecOn with
  | nil => rfl
  | append_singleton passes pass ih =>
    rw [configureAll_concat, get_configure_esModuleInterop, ih]
    by_cases hpass : pass = .umd <;> simp [hpass, eq_comm]

theorem get_configureAll_of_ne {s : Setting} (hdir : s ≠ .outDir)
    (hdeclaration : s ≠ .declaration) (hformat : s ≠ .moduleFormat)
    (hinterop : s ≠ .esModuleInterop) (passes : List Pass) :
    (configureAll package project passes).options.get s = project.options.get s := by
  induction passes using List.reverseRecOn with
  | nil => rfl
  | append_singleton passes pass ih =>
    rw [configureAll_concat, get_configure_of_ne hdir hdeclaration hformat hinterop, ih]

/-! ### Single calls -/

/-- **Single calls** of passes on one project, one after the other: each one is made whatever
came of the earlier ones. -/
def callEach (c : Compiler) (tools : Tools) (compilerPolicy writerPolicy : Policy)
    (package : Path) (project : Project) :
    List Pass → Action (Project × List (Except Failure (List (Pass × EmitResult))))
  | [] => pure (project, [])
  | pass :: passes => do
    let (project, result) ← runAll c tools compilerPolicy writerPolicy package project [pass]
    let (project, results) ← callEach c tools compilerPolicy writerPolicy package project passes
    pure (project, result :: results)

variable (c : Compiler) (tools : Tools) (compilerPolicy writerPolicy : Policy)

/-- **One call** leaves the project as the pass configured it, whatever came of the pass. -/
theorem run_runAll_singleton (pass : Pass) (package : Path) (project : Project) (w : Workspace) :
    ∃ result, (runAll c tools compilerPolicy writerPolicy package project [pass]).run w =
      (.ok (pass.configure package project, result),
        ((pass.run c tools compilerPolicy writerPolicy package
          (pass.configure package project)).run w).2) := by
  match hrun : (pass.run c tools compilerPolicy writerPolicy package
      (pass.configure package project)).run w with
  | (.ok r, v) =>
    refine ⟨.ok [(pass, r)], ?_⟩
    rw [runAll, run_bind_of_ok (run_attempt hrun)]
    rfl
  | (.error e, v) =>
    refine ⟨.error e, ?_⟩
    rw [runAll, run_bind_of_ok (run_attempt hrun)]
    rfl

/-- **Single calls never fail as a whole**, and the project after them is the one that all of
them configured. -/
theorem run_callEach (package : Path) (project : Project) (passes : List Pass) (w : Workspace) :
    ∃ results v, (callEach c tools compilerPolicy writerPolicy package project passes).run w =
      (.ok (configureAll package project passes, results), v) := by
  induction passes generalizing project w with
  | nil => exact ⟨[], w, rfl⟩
  | cons pass passes ih =>
    obtain ⟨result, hcall⟩ := run_runAll_singleton c tools compilerPolicy writerPolicy pass package
      project w
    obtain ⟨results, v, hrest⟩ := ih (pass.configure package project)
      ((pass.run c tools compilerPolicy writerPolicy package
        (pass.configure package project)).run w).2
    refine ⟨result :: results, v, ?_⟩
    rw [callEach, run_bind_of_ok hcall, run_bind_of_ok hrest]
    rfl

/-! ### A pass after other passes -/

section After

variable {declaration : Bool} {target : Option ScriptTarget}

/-- The module format of a pass after other passes. -/
theorem get_moduleFormat_after (hbase : project.options = .base package declaration target)
    (before : List Pass) (pass : Pass) :
    (pass.configure package (configureAll package project before)).options.get .moduleFormat =
      .format ((lastFormat? (before ++ [pass])).getD .es2015) := by
  rw [← configureAll_concat, get_configureAll_moduleFormat, hbase]
  cases lastFormat? (before ++ [pass]) <;> rfl

/-- The interoperation of module systems in a pass after other passes. -/
theorem get_esModuleInterop_after (hbase : project.options = .base package declaration target)
    (before : List Pass) (pass : Pass) :
    (pass.configure package (configureAll package project before)).options.get .esModuleInterop =
      .raw (.bool (.umd ∈ before ++ [pass])) := by
  rw [← configureAll_concat, get_configureAll_esModuleInterop, hbase]
  by_cases humd : .umd ∈ before ++ [pass] <;> simp only [humd, if_true, if_false] <;> rfl

/-- **What other passes cannot touch**: all settings of a pass but two. -/
theorem get_after_of_ne {s : Setting} (hformat : s ≠ .moduleFormat)
    (hinterop : s ≠ .esModuleInterop) (before : List Pass) (pass : Pass) :
    (pass.configure package (configureAll package project before)).options.get s =
      (pass.configure package project).options.get s := by
  by_cases hdir : s = .outDir
  · rw [hdir, get_configure_outDir, get_configure_outDir]
  by_cases hdeclaration : s = .declaration
  · rw [hdeclaration, get_configure_declaration, get_configure_declaration]
  rw [get_configure_of_ne hdir hdeclaration hformat hinterop,
    get_configure_of_ne hdir hdeclaration hformat hinterop,
    get_configureAll_of_ne hdir hdeclaration hformat hinterop]

/-- Unless there was a UMD pass, other passes leave no format behind that matters. -/
theorem lastFormat?_concat_getD {before : List Pass} (humd : .umd ∉ before) (pass : Pass) :
    (lastFormat? (before ++ [pass])).getD .es2015 = (lastFormat? [pass]).getD .es2015 := by
  have hbefore : ∀ f ∈ lastFormat? before, f = .es2015 := by
    intro f hf
    obtain ⟨q, hq, hfq⟩ := List.mem_filterMap.1 (List.mem_of_getLast? hf)
    cases q with
    | declarations => simp [format?] at hfq
    | esm => exact (Option.some.inj hfq).symm
    | umd => exact absurd hq humd
  rw [lastFormat?_concat]
  cases pass with
  | declarations =>
    cases h : lastFormat? before with
    | none => rfl
    | some f => exact hbefore f h
  | esm => rfl
  | umd => rfl

/-- **When a pass has its own settings** after other passes: if it is the UMD pass, or if none of
the others was. -/
theorem options_after_eq_iff (hbase : project.options = .base package declaration target)
    (before : List Pass) (pass : Pass) :
    (pass.configure package (configureAll package project before)).options =
        (pass.configure package project).options ↔ pass = .umd ∨ .umd ∉ before := by
  have hinterop : (pass.configure package project).options.get .esModuleInterop =
      .raw (.bool (.umd ∈ [pass])) := get_esModuleInterop_after hbase [] pass
  have hformat : (pass.configure package project).options.get .moduleFormat =
      .format ((lastFormat? [pass]).getD .es2015) := get_moduleFormat_after hbase [] pass
  constructor
  · intro h
    have hafter := get_esModuleInterop_after hbase before pass
    rw [h, hinterop] at hafter
    simp only [SettingValue.raw.injEq, Json.bool.injEq, decide_eq_decide, List.mem_append,
      List.mem_singleton] at hafter
    by_cases hmem : .umd ∈ before
    · exact .inl (hafter.2 (.inl hmem)).symm
    · exact .inr hmem
  · intro h
    refine CompilerOptions.ext_get fun s => ?_
    by_cases hs : s = .esModuleInterop
    · rw [hs, get_esModuleInterop_after hbase, hinterop]
      rcases h with rfl | h <;> simp [*]
    by_cases hs' : s = .moduleFormat
    · rw [hs', get_moduleFormat_after hbase, hformat]
      rcases h with rfl | h
      · rw [lastFormat?_concat]
        rfl
      · rw [lastFormat?_concat_getD h]
    · exact get_after_of_ne hs' hs before pass

/-- **The settings left by other passes.** Single calls of passes on one project that starts from
the base options are followed by one more. The program compiled for it has the base options
overridden by what the pass changes just if it is the UMD pass or no UMD pass was before it. It has
the interoperation of module systems once a UMD pass was begun, and the module format of the last
pass that emits scripts; all other settings are as the pass alone would have them. -/
theorem settings_left (package : Path) (declaration : Bool) (target : Option ScriptTarget)
    (files : List (String × String)) (before : List Pass) (pass : Pass) (w : Workspace) :
    ∃ project results v,
      (callEach c tools compilerPolicy writerPolicy package
        ⟨.base package declaration target, files⟩ before).run w = (.ok (project, results), v) ∧
      ∃ program u, (pass.compile (pass.configure package project)).run v = (.ok program, u) ∧
        program.files = files ∧
        ((CompilerOptions.base package declaration target).merge (pass.named package) =
            .ok program.options ↔ pass = .umd ∨ .umd ∉ before) ∧
        program.options.get .esModuleInterop = .raw (.bool (.umd ∈ before ++ [pass])) ∧
        program.options.get .moduleFormat =
          .format ((lastFormat? (before ++ [pass])).getD .es2015) ∧
        ∀ s, s ≠ .esModuleInterop → s ≠ .moduleFormat → program.options.get s =
          ((CompilerOptions.base package declaration target).setAll (pass.changes package)).get s := by
  obtain ⟨results, v, hcalls⟩ := run_callEach c tools compilerPolicy writerPolicy package
    ⟨.base package declaration target, files⟩ before w
  refine ⟨_, results, v, hcalls, _, _, run_compile v, configureAll_files before, ?_, ?_, ?_, ?_⟩
  · exact merge_named_eq_ok_iff.trans (options_after_eq_iff rfl before pass)
  · exact get_esModuleInterop_after rfl before pass
  · exact get_moduleFormat_after rfl before pass
  · intro s hinterop hformat
    exact get_after_of_ne hformat hinterop before pass

/-- **Interoperation stays on**: an ES module pass after a UMD pass is not compiled with the base
options overridden by what it changes. -/
theorem interop_left : ∃ project results v,
    (callEach .standard echoTools .unrestricted .unrestricted (.ofString "npm")
      ⟨.base (.ofString "npm") false none, [("npm/src/mod.ts", "export const a = 1;\n")]⟩
      [.umd]).run (.fresh (.ofString "/p") .empty) = (.ok (project, results), v) ∧
    ∃ program u, (Pass.esm.compile (Pass.esm.configure (.ofString "npm") project)).run v =
        (.ok program, u) ∧
      program.options.get .esModuleInterop = .raw (.bool true) ∧
      (CompilerOptions.base (.ofString "npm") false none).merge
        (Pass.esm.named (.ofString "npm")) ≠ .ok program.options := by
  obtain ⟨results, v, hcalls⟩ := run_callEach .standard echoTools .unrestricted .unrestricted
    (.ofString "npm") ⟨.base (.ofString "npm") false none,
      [("npm/src/mod.ts", "export const a = 1;\n")]⟩ [.umd] (.fresh (.ofString "/p") .empty)
  refine ⟨_, results, v, hcalls, _, _, run_compile v, get_esModuleInterop_after rfl [.umd] .esm, ?_⟩
  intro h
  have hown := merge_named_eq_ok_iff.1 h
  exact absurd ((options_after_eq_iff rfl [.umd] .esm).1 hown) (by decide)

end After

end Pass

end DenoPackager
