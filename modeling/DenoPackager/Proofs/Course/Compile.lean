import DenoPackager.Proofs.Course.Quiet

/-!
# A run of the compiler

One run of the compiler is one deed, whatever it is run for and however it ends. What it was run
for can be read off its configuration.

## Main results

* `configuration?_phase`: the configuration of a run says what the run is for.
* `Compiler.follows_run`: a run of the compiler is one deed.
-/

namespace DenoPackager

open DenoPackager.Action

/-! ### What the configuration says -/

/-- What the compiler reads about a setting. -/
theorem CompilerOptions.get?_config (o : CompilerOptions) (key : String) :
    o.config.get? key =
      (Setting.all.find? fun s => key == s.configName).map fun s => (o.get s).config := by
  rw [config]
  induction Setting.all with
  | nil => rfl
  | cons s ss ih =>
    rw [List.map_cons, Table.get?_cons, List.find?_cons, ih]
    cases key == s.configName <;> rfl

theorem CompilerOptions.has_config (o : CompilerOptions) (key : String) :
    o.config.has key = (Setting.all.find? fun s => key == s.configName).isSome := by
  rw [Table.has, o.get?_config, Option.isSome_map]

/-- **The phase that a run belongs to**, by its purpose and the options of the program. -/
def phaseFor (options : CompilerOptions) : Purpose → Phase
  | .check => .check
  | .emit true _ => .pass .declarations
  | .emit false _ => .ofModule (some (options.get .moduleFormat).config)

/-- Where a run emits to makes no difference to its phase. -/
theorem phaseFor_emit (options : CompilerOptions) (declarationsOnly : Bool)
    (dir other : Option Path) :
    phaseFor options (.emit declarationsOnly dir) =
      phaseFor options (.emit declarationsOnly other) := by
  cases declarationsOnly <;> rfl

/-- **The configuration of a run says what the run is for.** -/
theorem configuration?_phase {options : CompilerOptions} {sources : List String}
    {purpose : Purpose} {config : Members} (h : configuration? options sources purpose = some config) :
    Phase.ofConfig ((config.get? "compilerOptions").getD .null).members =
      phaseFor options purpose := by
  have hnoEmit : options.config.has "noEmit" = false := by
    rw [options.has_config]
    decide
  have honly : options.config.has "emitDeclarationOnly" = false := by
    rw [options.has_config]
    decide
  have hmodule : options.config.get? "module" = some (options.get .moduleFormat).config := by
    rw [options.get?_config]
    rfl
  cases purpose with
  | check =>
    simp only [configuration?, Option.some.injEq] at h
    subst h
    simp [Table.get?_cons, Json.members, Phase.ofConfig, Table.has_put, phaseFor]
  | emit declarationsOnly dir =>
    cases dir with
    | none => simp [configuration?] at h
    | some dir =>
      simp only [configuration?, Option.some.injEq] at h
      subst h
      cases declarationsOnly with
      | true =>
        simp [Table.get?_cons, Json.members, Phase.ofConfig, Table.has_put, phaseFor, hnoEmit]
      | false =>
        simp [Table.get?_cons, Json.members, Phase.ofConfig, Table.has_put, phaseFor, hnoEmit,
          honly, Table.get?_put, hmodule]

/-! ### Staging is quiet -/

theorem quiet_stageFile (staging root : Path) (path text : String) :
    (stageFile staging root path text).Quiet := by
  rw [stageFile]
  split
  · exact quiet_fail _
  · exact (quiet_change _).bind fun _ => (quiet_step _).bind fun _ => quiet_pure _

theorem quiet_stageFiles (staging root : Path) (files : List (String × String)) :
    (stageFiles staging root files).Quiet := by
  rw [stageFiles]
  refine Quiet.mapEach (fun f => ?_) files
  exact quiet_stageFile staging root f.1 f.2

theorem quiet_leaveOutputs (purpose : Purpose) (outputs : List (String × ByteArray)) :
    (leaveOutputs purpose outputs).Quiet := by
  cases purpose with
  | check => exact quiet_pure ()
  | emit declarationsOnly dir =>
    cases dir with
    | none => exact quiet_pure ()
    | some dir =>
      rw [leaveOutputs, writeOutputs]
      refine Quiet.forEach (fun output => ?_) outputs
      exact (quiet_change _).bind fun _ => quiet_step _

/-- Making room for an action and clearing up after it are no deeds. -/
theorem Action.Follows.withTemporary {α : Type} {dir : Place} {start : String}
    {body : Path → Action α} {w : Workspace} {plan : List Deed}
    (h : (body ⟨.single, temporaryPlace w.tree dir start⟩).Follows
      (w.withDirectory (temporaryPlace w.tree dir start)) plan) :
    (DenoPackager.withTemporary dir start body).Follows w plan := by
  obtain ⟨done, hdone, hpre, hall⟩ := h
  exact ⟨done, hdone, hpre, hall⟩

/-! ### The run -/

namespace Compiler

variable (c : Compiler) (tools : Tools) (policy : Policy) (options : CompilerOptions)

/-- Executing the compiler is a deed, even if it is not there or takes too long. -/
theorem follows_execute (purpose : Purpose) (run : CompilerRun) (w : Workspace) :
    (c.execute tools purpose run).Follows w [.compiled run.phase] := by
  refine quiet_get.bind_follows fun u v _ => ?_
  refine (fulfils_note rfl v).follows.bind_quiet fun _ => ?_
  split
  · exact quiet_fail _
  · exact quiet_fail _
  · exact (quiet_leaveOutputs _ _).bind fun _ => quiet_pure _

/-- Putting sources in place is no deed, and the run that is put in place is for the purpose. -/
theorem quiet_stage (root : Path) (files : List (String × String)) (purpose : Purpose)
    (staging : Path) : (c.stage tools policy options root files purpose staging).Quiet := by
  refine (quiet_stageFiles staging root files).bind fun staged => ?_
  simp only
  split
  · exact quiet_fail _
  · exact (quiet_step _).bind fun _ => (policy.quiet_checkRun _).bind fun _ =>
      (quiet_log _ _).bind fun _ => quiet_get.bind fun _ => quiet_pure _

/-- **Staging, step by step**: the sources, then the configuration, then nothing but the words that
announce the run. The texts of the run are what is found in the end. -/
theorem of_run_stage_eq_ok {root : Path} {files : List (String × String)} {purpose : Purpose}
    {staging : Path} {w v : Workspace} {run : CompilerRun} {staged : List (String × String)}
    (h : (c.stage tools policy options root files purpose staging).run w = (.ok (run, staged), v)) :
    ∃ u u', (stageFiles staging root files).run w = (.ok staged, u) ∧
      configuration? options (((staged.map Prod.fst).eraseDups).mergeSort
        fun a b => decide (a ≤ b)) purpose = some run.config ∧
      (step fun t cwd => t.write cwd (staging.child "tsconfig.json")
        (Json.obj run.config).indentedText.toUTF8).run u = (.ok (), u') ∧
      (policy.checkRun (run.command.headD "") >>= fun _ =>
        log .debug ("Running " ++ commandLine run.command)).run u' = (.ok (), v) ∧
      run.directory = staging ∧
      run.files = (((staged.map Prod.fst).eraseDups).mergeSort fun a b => decide (a ≤ b)).map
        fun s => (s, stagedText v staging s) := by
  obtain ⟨staged', u, hstaged, h⟩ := of_run_bind_eq_ok h
  simp only at h
  split at h
  · rw [run_fail] at h
    simp at h
  · rename_i config hconfig
    obtain ⟨_, u₁, hstep, h⟩ := of_run_bind_eq_ok h
    obtain ⟨_, u₂, hallowed, h⟩ := of_run_bind_eq_ok h
    obtain ⟨_, u₃, hlog, h⟩ := of_run_bind_eq_ok h
    obtain ⟨_, u₄, hget, h⟩ := of_run_bind_eq_ok h
    rw [run_pure, Prod.mk.injEq, Except.ok.injEq, Prod.mk.injEq] at h
    rw [run_get, Prod.mk.injEq, Except.ok.injEq] at hget
    obtain ⟨⟨rfl, rfl⟩, rfl⟩ := h
    obtain ⟨rfl, rfl⟩ := hget
    exact ⟨u, u₁, hstaged, hconfig, hstep, (run_bind_of_ok hallowed).trans hlog, rfl, rfl⟩

theorem stage_phase {root : Path} {files : List (String × String)} {purpose : Purpose}
    {staging : Path} {w v : Workspace} {run : CompilerRun} {staged : List (String × String)}
    (h : (c.stage tools policy options root files purpose staging).run w = (.ok (run, staged), v)) :
    run.phase = phaseFor options purpose := by
  obtain ⟨u, u', -, hconfig, -⟩ := c.of_run_stage_eq_ok tools policy options h
  exact configuration?_phase hconfig

theorem follows_stagedRun (root : Path) (files : List (String × String)) (purpose : Purpose)
    (staging : Path) (w : Workspace) :
    (c.stagedRun tools policy options root files purpose staging).Follows w
      [.compiled (phaseFor options purpose)] := by
  refine (c.quiet_stage tools policy options root files purpose staging).bind_follows
    fun started v hv => ?_
  rw [← c.stage_phase tools policy options hv]
  exact (c.follows_execute tools purpose _ v).bind_quiet fun _ => quiet_pure _

theorem quiet_openRoot : (openRoot options).Quiet :=
  (quiet_look _).bind fun _ => (quiet_change _).bind fun _ => (quiet_look _).bind fun _ =>
    quiet_pure _

theorem quiet_interpret (command : List String) (ending : Int × String × String)
    (staged : List (String × String)) : (interpret command ending staged).Quiet := by
  refine (quiet_look _).bind fun reading => ?_
  refine (Quiet.forEach (fun _ => quiet_log _ _) _).bind fun _ => ?_
  split
  · exact quiet_fail _
  · exact quiet_pure _

/-- **A run of the compiler is one deed.** -/
theorem follows_run (files : List (String × String)) (purpose : Purpose) (w : Workspace) :
    (c.run tools policy options files purpose).Follows w
      [.compiled (phaseFor options purpose)] := by
  refine (quiet_openRoot options).bind_follows fun place v _ => ?_
  refine (Follows.withTemporary (c.follows_stagedRun tools policy options place.1 files purpose
    _ _)).bind_quiet fun ending => ?_
  exact quiet_interpret _ _ _

end Compiler

end DenoPackager
