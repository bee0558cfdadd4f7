import DenoPackager.Proofs.Course.Order

/-!
# What is noted about external programs

An action only adds to the events: what was noted before stays. Most actions add messages and
files and nothing about external programs; the package manager and the compiler are noted where
they are used, and only what kills a command notes that it was killed.

Deeds leave out commands that are missing, that end badly or that are killed. Here all of them
count.

## Main definitions

* `Workspace.external`: the events of external programs.
* `Action.Adds`: an action all of whose events are of some sort.

## Main results

* `Build.adds_beforeInstall`, `Build.adds_keepSources`: before and during the installation no
  external program is noted but the package manager.
* `Build.adds_afterInstall`: after the installation no command is killed.
-/

namespace DenoPackager

/-- Whether an event is about an external program. -/
def Event.isExternal : Event → Bool
  | .launched _ _ | .absent _ | .exited _ _ | .killed _ | .compiled _ => true
  | .logged _ _ | .wrote _ | .removed _ => false

/-- An event that is not about an external program. -/
def Event.Internal (e : Event) : Prop :=
  e.isExternal = false

/-- An event that is not the killing of a command. -/
def Event.Spares (e : Event) : Prop :=
  ∀ command, e ≠ .killed command

theorem Event.Internal.spares {e : Event} (h : e.Internal) : e.Spares := by
  rintro command rfl
  exact absurd h (by simp [Internal, isExternal])

/-- **The events of external programs** so far, in order. -/
def Workspace.external (w : Workspace) : List Event :=
  w.events.filter Event.isExternal

theorem Workspace.external_note {e : Event} (h : e.isExternal = true) (w : Workspace) :
    ({ w with events := w.events ++ [e] } : Workspace).external = w.external ++ [e] := by
  simp [external, h]

namespace Action

variable {α β : Type} {P Q : Event → Prop} {m : Action α} {w v : Workspace}

/-- **Adding events of a sort**: the events before stay, and those that are new are of the sort. -/
def Adds (P : Event → Prop) (m : Action α) : Prop :=
  ∀ w, ∃ new, (m.run w).2.events = w.events ++ new ∧ ∀ e ∈ new, P e

theorem Adds.of_run (h : m.Adds P) {r : Except Failure α} (hr : m.run w = (r, v)) :
    ∃ new, v.events = w.events ++ new ∧ ∀ e ∈ new, P e := by
  have hnew := h w
  rwa [hr] at hnew

theorem Adds.mono (h : m.Adds P) (hPQ : ∀ e, P e → Q e) : m.Adds Q := by
  intro w
  obtain ⟨new, hnew, hall⟩ := h w
  exact ⟨new, hnew, fun e he => hPQ e (hall e he)⟩

/-- What adds internal events only kills nothing. -/
theorem Adds.spares (h : m.Adds Event.Internal) : m.Adds Event.Spares :=
  h.mono fun _ => Event.Internal.spares

/-- **Internal events** leave those of external programs as they are. -/
theorem Adds.external_eq (h : m.Adds Event.Internal) {r : Except Failure α}
    (hr : m.run w = (r, v)) : v.external = w.external := by
  obtain ⟨new, hnew, hall⟩ := h.of_run hr
  have hnone : new.filter Event.isExternal = [] := by
    rw [List.filter_eq_nil_iff]
    intro e he
    rw [show e.isExternal = false from hall e he]
    decide
  rw [Workspace.external, hnew, List.filter_append, hnone, List.append_nil, Workspace.external]

/-! ### The basic actions -/

theorem adds_of_events (h : ∀ w, (m.run w).2.events = w.events) : m.Adds P :=
  fun w => ⟨[], by rw [h w, List.append_nil], by simp⟩

theorem adds_pure (a : α) : (pure a : Action α).Adds P := adds_of_events fun _ => rfl

theorem adds_failure (e : Failure) : (failure e : Action α).Adds P := adds_of_events fun _ => rfl

theorem adds_get : get.Adds P := adds_of_events fun _ => rfl

theorem adds_ofExcept (r : Except Failure α) : (ofExcept r).Adds P := by
  cases r with
  | ok a => exact adds_pure a
  | error e => exact adds_failure e

theorem adds_look (f : FileTree → Path → Except Fault α) : (look f).Adds P := by
  refine adds_of_events fun w => ?_
  simp only [run, look]
  split <;> rfl

theorem adds_change (f : FileTree → Path → Except Fault Unit × FileTree) : (change f).Adds P := by
  refine adds_of_events fun w => ?_
  simp only [run, change]
  split <;> rfl

theorem adds_step (f : FileTree → Path → Except Fault FileTree) : (step f).Adds P := by
  refine adds_of_events fun w => ?_
  simp only [run, step]
  split <;> rfl

theorem adds_note {e : Event} (h : P e) : (note e).Adds P :=
  fun _ => ⟨[e], rfl, by simpa using h⟩

theorem adds_log (level : Level) (message : String) : (log level message).Adds Event.Internal :=
  adds_note rfl

theorem Adds.bind {f : α → Action β} (hm : m.Adds P) (hf : ∀ a, (f a).Adds P) :
    (m >>= f).Adds P := by
  intro w
  obtain ⟨new, hnew, hall⟩ := hm w
  match hr : m.run w with
  | (.ok a, v) =>
    rw [hr] at hnew
    obtain ⟨later, hlater, hall'⟩ := hf a v
    refine ⟨new ++ later, ?_, fun e he => ?_⟩
    · rw [run_bind_of_ok hr, hlater, hnew, List.append_assoc]
    · exact (List.mem_append.1 he).elim (hall e) (hall' e)
  | (.error e, v) =>
    rw [hr] at hnew
    exact ⟨new, by rw [run_bind_of_error hr, hnew], hall⟩

theorem Adds.onlyIf {m : Action Unit} (wanted : Bool) (h : m.Adds P) : (onlyIf wanted m).Adds P := by
  cases wanted with
  | true => exact h
  | false => exact adds_pure ()

theorem Adds.forEach {f : α → Action Unit} (h : ∀ a, (f a).Adds P) (as : List α) :
    (forEach f as).Adds P := by
  induction as with
  | nil => exact adds_pure ()
  | cons a as ih => exact (h a).bind fun _ => ih

theorem Adds.mapEach {f : α → Action β} (h : ∀ a, (f a).Adds P) (as : List α) :
    (mapEach f as).Adds P := by
  induction as with
  | nil => exact adds_pure []
  | cons a as ih => exact (h a).bind fun b => ih.bind fun bs => adds_pure (b :: bs)

/-- How an action ends makes no difference to what it adds. -/
theorem Adds.attempt (h : m.Adds P) : (attempt m).Adds P := by
  intro w
  match hr : m.run w with
  | (r, v) =>
    rw [run_attempt hr]
    exact h.of_run hr

/-- Making room for an action and clearing up after it add nothing. -/
theorem Adds.withTemporary {dir : Place} {start : String} {body : Path → Action α}
    (h : ∀ path, (body path).Adds P) : (DenoPackager.withTemporary dir start body).Adds P :=
  fun w => h ⟨.single, temporaryPlace w.tree dir start⟩
    (w.withDirectory (temporaryPlace w.tree dir start))

end Action

open DenoPackager.Action

/-! ### Files -/

theorem Policy.adds_checkWrite (policy : Policy) (text : String) :
    (policy.checkWrite text).Adds Event.Internal := by
  refine adds_get.bind fun w => ?_
  simp only
  split
  · exact adds_pure ()
  · exact (adds_log _ _).bind fun _ => adds_failure _

theorem Policy.adds_checkRun (policy : Policy) (command : String) :
    (policy.checkRun command).Adds Event.Internal := by
  simp only [Policy.checkRun]
  split
  · exact adds_pure ()
  · exact (adds_log _ _).bind fun _ => adds_failure _

namespace Writer

theorem adds_seeTo (dir : Path) : (seeTo dir).Adds Event.Internal := by
  refine adds_get.bind fun w => ?_
  split
  · exact adds_pure ()
  · exact (adds_change _).bind fun _ => adds_of_events fun _ => rfl

theorem adds_writeMarked (policy : Policy) (path : Path) (text : String) (mark : Bool) :
    (writeMarked policy path text mark).Adds Event.Internal :=
  (policy.adds_checkWrite _).bind fun _ => (adds_seeTo _).bind fun _ => (adds_step _).bind fun _ =>
    (adds_of_events fun _ => rfl).bind fun _ => adds_note rfl

theorem adds_write (policy : Policy) (path : Path) (text : String) :
    (write policy path text).Adds Event.Internal :=
  adds_writeMarked policy path text false

theorem adds_removeAll (policy : Policy) (dir : Path) (names : List String) :
    (removeAll policy dir names).Adds Event.Internal := by
  refine Adds.bind (Adds.forEach (fun name => ?_) names) fun _ => adds_log _ _
  exact (policy.adds_checkWrite _).bind fun _ => (adds_log _ _).bind fun _ =>
    (adds_step _).bind fun _ => adds_note rfl

end Writer

/-! ### The package manager -/

namespace PackageManager

variable (m : PackageManager) (tools : Tools) (policy : Policy) (args : List String)

/-- **What is noted about a command** by the attempt to start it: nothing if the policy is against
it. -/
def tried : Except Failure StartedCommand → List Event
  | .ok c => [.launched c.command m.directory]
  | .error (.problem (.processMissing _ _ _)) =>
    [.launched (m.commandFor tools args) m.directory, .absent (m.commandFor tools args)]
  | .error _ => []

/-- **The attempt to start a command** is all that is noted, whatever comes of it. -/
theorem external_of_run_start {started : Except Failure StartedCommand} {w v : Workspace}
    (h : (m.start tools policy args).run w = (started, v)) :
    v.external = w.external ++ m.tried tools args started := by
  obtain ⟨u, hu⟩ := policy.run_checkRun ((m.commandFor tools args).headD "") w
  have hsame := (policy.adds_checkRun _).external_eq hu
  by_cases hallowed : policy.allowsRun ((m.commandFor tools args).headD "") = true
  · rw [if_pos hallowed] at hu
    rw [start, run_bind_of_ok hu] at h
    obtain ⟨x, hlog⟩ : ∃ x, (log .debug ("Running " ++ commandLine (m.commandFor tools args) ++
      " in " ++ m.directory.text)).run u = (.ok (), x) := ⟨_, rfl⟩
    rw [run_bind_of_ok hlog, run_bind_of_ok (run_get x), run_bind_of_ok (run_note _ x)] at h
    have hx := ((adds_log _ _).external_eq hlog).trans hsame
    cases ho : tools.packageManager x (m.commandFor tools args) with
    | missing =>
      rw [ho, outcome, run_bind_of_ok (run_note _ _), run_fail, Prod.mk.injEq] at h
      obtain ⟨rfl, rfl⟩ := h
      rw [Workspace.external_note rfl, Workspace.external_note rfl, hx, List.append_assoc]
      rfl
    | exits code =>
      rw [ho, outcome, run_pure, Prod.mk.injEq] at h
      obtain ⟨rfl, rfl⟩ := h
      rw [Workspace.external_note rfl, hx]
      rfl
  · rw [if_neg hallowed] at hu
    rw [start, run_bind_of_error hu, Prod.mk.injEq] at h
    obtain ⟨rfl, rfl⟩ := h
    rw [hsame]
    exact (List.append_nil _).symm

theorem adds_start : (m.start tools policy args).Adds Event.Spares := by
  refine (policy.adds_checkRun _).spares.bind fun _ => (adds_log _ _).spares.bind fun _ =>
    adds_get.bind fun w => (adds_note (by simp [Event.Spares])).bind fun _ => ?_
  cases tools.packageManager w (m.commandFor tools args) with
  | missing => exact (adds_note (by simp [Event.Spares])).bind fun _ => adds_failure _
  | exits code => exact adds_pure _

theorem adds_finish (c : StartedCommand) : (m.finish c).Adds Event.Spares := by
  refine (adds_note (by simp [Event.Spares])).bind fun _ => ?_
  split
  · exact adds_pure ()
  · exact adds_failure _

theorem adds_run : (m.run tools policy args).Adds Event.Spares :=
  (m.adds_start tools policy args).bind fun c => m.adds_finish c

end PackageManager

/-! ### The compiler -/

theorem adds_stageFile (staging root : Path) (path text : String) :
    (stageFile staging root path text).Adds Event.Internal := by
  rw [stageFile]
  split
  · exact adds_failure _
  · exact (adds_change _).bind fun _ => (adds_step _).bind fun _ => adds_pure _

theorem adds_stageFiles (staging root : Path) (files : List (String × String)) :
    (stageFiles staging root files).Adds Event.Internal := by
  rw [stageFiles]
  refine Adds.mapEach (fun f => ?_) files
  exact adds_stageFile staging root f.1 f.2

theorem adds_leaveOutputs (purpose : Purpose) (outputs : List (String × ByteArray)) :
    (leaveOutputs purpose outputs).Adds Event.Internal := by
  cases purpose with
  | check => exact adds_pure ()
  | emit declarationsOnly dir =>
    cases dir with
    | none => exact adds_pure ()
    | some dir =>
      rw [leaveOutputs, writeOutputs]
      refine Adds.forEach (fun output => ?_) outputs
      exact (adds_change _).bind fun _ => adds_step _

namespace Compiler

variable (c : Compiler) (tools : Tools) (policy : Policy) (options : CompilerOptions)
  (files : List (String × String)) (purpose : Purpose)

theorem adds_stage (root staging : Path) :
    (c.stage tools policy options root files purpose staging).Adds Event.Internal := by
  refine (adds_stageFiles staging root files).bind fun staged => ?_
  simp only
  split
  · exact adds_failure _
  · exact (adds_step _).bind fun _ => (policy.adds_checkRun _).bind fun _ =>
      (adds_log _ _).bind fun _ => adds_get.bind fun _ => adds_pure _

theorem adds_execute (run : CompilerRun) : (c.execute tools purpose run).Adds Event.Spares := by
  refine adds_get.bind fun w => (adds_note (by simp [Event.Spares])).bind fun _ => ?_
  split
  · exact adds_failure _
  · exact adds_failure _
  · exact (adds_leaveOutputs _ _).spares.bind fun _ => adds_pure _

theorem adds_interpret (command : List String) (ending : Int × String × String)
    (staged : List (String × String)) :
    (interpret command ending staged).Adds Event.Internal := by
  refine (adds_look _).bind fun reading => ?_
  refine (Adds.forEach (fun line => adds_log _ _) _).bind fun _ => ?_
  split
  · exact adds_failure _
  · exact adds_pure _

/-- **A run of the compiler** kills no command. -/
theorem adds_run : (c.run tools policy options files purpose).Adds Event.Spares := by
  refine Adds.bind ?_ fun opened => ?_
  · exact (adds_look _).bind fun _ => (adds_change _).bind fun _ => (adds_look _).bind fun _ =>
      adds_pure _
  · refine Adds.bind (Adds.withTemporary fun path => ?_) fun _ => (adds_interpret _ _ _).spares
    exact (c.adds_stage tools policy options files purpose _ path).spares.bind fun _ =>
      (c.adds_execute tools purpose _).bind fun _ => adds_pure _

end Compiler

/-! ### The passes -/

namespace Pass

variable (pass : Pass) (c : Compiler) (tools : Tools) (compilerPolicy writerPolicy : Policy)
  (package : Path) (project : Project)

theorem adds_emit (p : Program) (declarationsOnly : Bool) (transforms : List SourceTransform) :
    (p.emit c tools compilerPolicy declarationsOnly transforms (writeEmitted writerPolicy)).Adds
      Event.Spares := by
  refine Adds.withTemporary fun scratch => ?_
  refine (c.adds_run tools compilerPolicy _ _ _).bind fun _ => (adds_look _).bind fun outDir =>
    adds_get.bind fun w => (Adds.mapEach (fun place => ?_) _).bind fun _ => adds_pure _
  refine (adds_look _).bind fun content => ?_
  exact (Writer.adds_writeMarked writerPolicy _ _ _).spares.bind fun _ => adds_pure _

theorem adds_conclude (result : EmitResult) :
    (pass.conclude writerPolicy package result).Adds Event.Internal := by
  rw [conclude]
  split
  · refine Adds.bind ?_ fun _ => (adds_log _ _).bind fun _ => adds_pure _
    rw [writeManifest]
    split
    · exact Writer.adds_write _ _ _
    · exact adds_pure ()
  · exact (adds_log _ _).bind fun _ => adds_failure _

theorem adds_run : (pass.run c tools compilerPolicy writerPolicy package project).Adds
    Event.Spares := by
  refine Adds.bind ?_ fun program => (adds_emit c tools _ _ program _ _).bind fun result =>
    (pass.adds_conclude writerPolicy package result).spares
  exact (adds_log _ _).spares.bind fun _ => (adds_log _ _).spares.bind fun _ => adds_pure _

/-- **The passes** kill no command. -/
theorem adds_emitAll (passes : List Pass) :
    (emitAll c tools compilerPolicy writerPolicy package project passes).Adds Event.Spares := by
  refine Adds.bind ?_ fun result => adds_ofExcept _
  induction passes generalizing project with
  | nil => exact adds_pure _
  | cons pass passes ih =>
    refine Adds.bind (pass.adds_run c tools _ _ package _).attempt fun result => ?_
    cases result with
    | error e => exact adds_pure _
    | ok result => exact (ih _).bind fun _ => adds_pure _

end Pass

/-! ### The stages of a build -/

/-- **Transforming uses no external program**: this is so of the modules in files, and is asked of
any other transformation. -/
def BuildTools.TransformsAlone (b : BuildTools) : Prop :=
  ∀ transformer ∈ b.transformer, ∀ request, (transformer request).Adds Event.Internal

namespace Build

variable (b : BuildTools) (options : BuildOptions) (output : TransformOutput)

/-- **What a build does before the installation**: the program is transformed, and the manifest
is written. -/
def beforeInstall : Action TransformOutput := do
  let output ← prepare b options
  writePackageFiles b options (EntryPoint.ofSpecs options.entryPoints) output
  Action.log .info "Running npm install..."
  pure output

theorem adds_discover : (discover options).Adds Event.Internal := by
  rw [discover]
  split
  · refine adds_get.bind fun _ => Adds.bind ?_ fun _ => (adds_log _ _).bind fun _ => adds_pure _
    exact adds_get.bind fun _ => (Adds.onlyIf _ (adds_failure _)).bind fun _ =>
      (adds_look _).bind fun _ => (adds_log _ _).bind fun _ => adds_pure _
  · exact adds_pure _

/-- **Before the installation** no external program is used. -/
theorem adds_beforeInstall (h : b.TransformsAlone) :
    (beforeInstall b options).Adds Event.Internal := by
  refine Adds.bind ?_ fun output => Adds.bind ?_ fun _ => (adds_log _ _).bind fun _ => adds_pure _
  · refine (adds_ofExcept _).bind fun _ => (b.policy.adds_checkWrite _).bind fun _ =>
      (adds_log _ _).bind fun _ => (adds_discover options).bind fun tests =>
      adds_get.bind fun w => Adds.bind ?_ fun output =>
      (Adds.forEach (fun _ => adds_log _ _) _).bind fun _ => adds_pure _
    cases htransformer : b.transformer with
    | none => exact (adds_look _).bind fun _ => (adds_log _ _).bind fun _ => adds_pure _
    | some transformer => exact h transformer htransformer _
  · refine (adds_ofExcept _).bind fun manifest => (Writer.adds_write _ _ _).bind fun _ => ?_
    split
    · exact Writer.adds_write _ _ _
    · exact adds_pure ()

/-- **Writing the sources** uses no external program. -/
theorem adds_keepSources : (keepSources b options output).Adds Event.Internal :=
  Adds.onlyIf _ (Adds.forEach (fun _ => Writer.adds_write _ _ _) _)

theorem adds_addSources (project : Project) (fs : List TransformedFile) :
    (addSources options project fs).Adds Event.Internal := by
  induction fs generalizing project with
  | nil => exact adds_pure _
  | cons f fs ih =>
    exact ((Adds.onlyIf _ (adds_log _ _)).bind fun _ => adds_pure _).bind fun project => ih project

theorem adds_checkedProject : (checkedProject b options output).Adds Event.Spares := by
  refine (adds_log _ _).spares.bind fun _ => (adds_addSources options _ _).spares.bind fun project =>
    Adds.bind ((adds_log _ _).spares.bind fun _ => adds_pure _) fun program =>
    Adds.bind (Adds.onlyIf _ ?_) fun _ => adds_pure _
  refine (adds_log _ _).spares.bind fun _ => (b.compiler.adds_run _ _ _ _ _).bind fun ds => ?_
  rw [requireNoDiagnostics]
  split
  · exact adds_pure ()
  · exact (adds_log _ _).spares.bind fun _ => adds_failure _

theorem adds_runTests : (runTests b options output).Adds Event.Spares :=
  (adds_log _ _).spares.bind fun _ => (Writer.adds_write _ _ _).spares.bind fun _ =>
    ((packageManager options).adds_run _ _ _).bind fun _ =>
    (Adds.onlyIf _ (Writer.adds_removeAll _ _ _)).spares

/-- **After the installation** no command is killed. -/
theorem adds_afterInstall : (afterInstall b options output).Adds Event.Spares :=
  (adds_checkedProject b options output).bind fun _ => (Pass.adds_emitAll _ _ _ _ _ _ _).bind
    fun _ => (Adds.onlyIf _ (adds_runTests b options output)).bind fun _ =>
    (adds_log _ _).spares.bind fun _ => adds_get.bind fun _ => adds_pure _

end Build

end DenoPackager
