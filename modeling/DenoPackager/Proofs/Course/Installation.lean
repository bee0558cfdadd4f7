import DenoPackager.Proofs.Course.Commands
import DenoPackager.Proofs.Files.Touch

/-!
# How the installation is settled

The installation runs while the sources are written. When writing one of them fails, that is what
the build fails with, whatever becomes of the installation: if it was started it is killed, and
nothing else is done. When all of them are written, the installation is waited for: nothing is
compiled before it has ended, and how it failed is how the build fails.

Waiting for a command is where a build can be interrupted. A command that was started is still
running when the sources are written, since it is not waited for before.

## Main definitions

* `Build.Begun`: builds that come to the installation.
* `Build.FailsAt`: the source at which writing the sources fails.
* `Build.Settled`: what becomes of the installation in a build.

## Main results

* `Build.installation_settled`: in every build the installation is settled.
-/

namespace DenoPackager

open DenoPackager.Action

/-! ### Ends of commands -/

/-- The workspace after a command that was started was killed; one that was not started is left
alone. -/
def Workspace.afterKill (w : Workspace) : Except Failure StartedCommand → Workspace
  | .ok c =>
    { w with
      events := w.events ++
        [.logged .debug ("Killing " ++ commandLine c.command), .killed c.command] }
  | .error _ => w

/-- The workspace after a command has ended by itself. -/
def Workspace.afterExit (w : Workspace) (c : StartedCommand) : Workspace :=
  { w with events := w.events ++ [.exited c.command c.exitCode] }

/-- What is noted about a command that is killed if it was started. -/
def PackageManager.killed : Except Failure StartedCommand → List Event
  | .ok c => [.killed c.command]
  | .error _ => []

theorem Workspace.external_afterKill (w : Workspace) (started : Except Failure StartedCommand) :
    (w.afterKill started).external = w.external ++ PackageManager.killed started := by
  cases started with
  | ok c => simp [afterKill, external, PackageManager.killed, Event.isExternal]
  | error e => exact (List.append_nil _).symm

theorem PackageManager.run_kill (c : StartedCommand) (w : Workspace) :
    (kill c).run w = (.ok (), w.afterKill (.ok c)) := by
  rw [kill, log, run_bind_of_ok (run_note _ w), run_note, Workspace.afterKill, List.append_assoc]
  rfl

theorem PackageManager.run_finish (m : PackageManager) (c : StartedCommand) (w : Workspace) :
    (m.finish c).run w =
      (if c.exitCode = 0 then .ok () else .error (.problem (.processFailed m.program c.args
        c.exitCode)), w.afterExit c) := by
  rw [finish, run_bind_of_ok (run_note _ w)]
  split <;> rfl

/-- **Where a loop fails**: at one of its items, after all items before it. -/
theorem Action.run_forEach_eq_error_iff {α : Type} {g : α → Action Unit} {as : List α}
    {w v : Workspace} {e : Failure} :
    (forEach g as).run w = (.error e, v) ↔ ∃ before a after u, as = before ++ a :: after ∧
      (forEach g before).run w = (.ok (), u) ∧ (g a).run u = (.error e, v) := by
  induction as generalizing w with
  | nil => simp [forEach]
  | cons a as ih =>
    rw [forEach]
    match hr : (g a).run w with
    | (.error e', x) =>
      rw [run_bind_of_error hr]
      constructor
      · intro h
        exact ⟨[], a, as, w, rfl, rfl, hr.trans h⟩
      · rintro ⟨_ | ⟨b, before⟩, c, after, u, heq, hbefore, hfail⟩
        · rw [List.nil_append, List.cons.injEq] at heq
          rw [forEach, run_pure, Prod.mk.injEq] at hbefore
          rw [← hr, heq.1, hbefore.2, hfail]
        · rw [List.cons_append, List.cons.injEq] at heq
          rw [forEach, ← heq.1, run_bind_of_error hr] at hbefore
          simp at hbefore
    | (.ok (), x) =>
      rw [run_bind_of_ok hr, ih]
      constructor
      · rintro ⟨before, c, after, u, rfl, hbefore, hfail⟩
        exact ⟨a :: before, c, after, u, rfl, (run_bind_of_ok hr).trans hbefore, hfail⟩
      · rintro ⟨_ | ⟨b, before⟩, c, after, u, heq, hbefore, hfail⟩
        · rw [List.nil_append, List.cons.injEq] at heq
          rw [forEach, run_pure, Prod.mk.injEq] at hbefore
          rw [← heq.1, ← hbefore.2, hr] at hfail
          simp at hfail
        · rw [List.cons_append, List.cons.injEq] at heq
          rw [forEach, ← heq.1, run_bind_of_ok hr] at hbefore
          exact ⟨before, c, after, u, heq.2, hbefore, hfail⟩

namespace Build

variable (b : BuildTools) (options : BuildOptions)

/-- The writing of a transformed source. -/
def writeSource (f : TransformedFile) : Action Unit :=
  Writer.write b.policy ((sourceDir options).joinText f.path) f.text

/-- **A build that comes to the installation** in `u`, with a transformed program, and to `s` by
the attempt to start it. -/
structure Begun (w : Workspace) (output : TransformOutput) (u : Workspace)
    (started : Except Failure StartedCommand) (s : Workspace) : Prop where
  equipped : (beforeInstall b options).run w = (.ok output, u)
  tried : ((packageManager options).start b.tools b.policy ["install"]).run u = (started, s)

/-- **Writing the sources fails** at `f`. They are kept, those before `f` are written from `s` on,
and then writing `f` fails and leaves `k`. -/
def FailsAt (output : TransformOutput) (f : TransformedFile) (s : Workspace) (e : Failure)
    (k : Workspace) : Prop :=
  options.keepSourceFiles = true ∧ ∃ before after x, output.allFiles = before ++ f :: after ∧
    (forEach (writeSource b options) before).run s = (.ok (), x) ∧
    (writeSource b options f).run x = (.error e, k)

/-- The events about the installation, up to the attempt to start it. -/
abbrev tries (started : Except Failure StartedCommand) : List Event :=
  (packageManager options).tried b.tools ["install"] started

/-- **How the installation is settled** in a build that begins in `w`. -/
structure Settled (w : Workspace) : Prop where
  /-- A build that does not come to the installation fails with what has failed before. -/
  unreached : ∀ e v, (beforeInstall b options).run w = (.error e, v) →
    (build b options).run w = (.error e, v)
  /-- Up to the installation no external program is used. -/
  unlaunched : b.TransformsAlone → ∀ r u, (beforeInstall b options).run w = (r, u) →
    u.external = w.external
  /-- Where writing the sources fails, the build fails with that. An installation that was started
  is killed, and nothing else is done: no file is written, nothing is compiled and no other
  command is started. -/
  cancelled : ∀ output u started s f e k, Begun b options w output u started s →
    FailsAt b options output f s e k →
    (build b options).run w = (.error e, k.afterKill started) ∧
      (k.afterKill started).external =
        u.external ++ tries b options started ++ PackageManager.killed started
  /-- Where the sources are written, an installation that could not be started fails the build. -/
  unstarted : ∀ output u e s k, Begun b options w output u (.error e) s →
    (keepSources b options output).run s = (.ok (), k) →
    (build b options).run w = (.error e, k) ∧
      k.external = u.external ++ tries b options (.error e)
  /-- Where the sources are written, an installation that was started is waited for until it has
  ended. A bad end fails the build; after a good one the project is made. -/
  awaited : ∀ output u c s k, Begun b options w output u (.ok c) s →
    (keepSources b options output).run s = (.ok (), k) →
    (build b options).run w =
        (if c.exitCode = 0 then (afterInstall b options output).run (k.afterExit c)
        else (.error (.problem (.processFailed "npm" c.args c.exitCode)), k.afterExit c)) ∧
      (k.afterExit c).external =
        u.external ++ tries b options (.ok c) ++ [.exited c.command c.exitCode]
  /-- No command is killed but an installation that was started before writing the sources has
  failed. -/
  spared : ∀ output u, (beforeInstall b options).run w = (.ok output, u) →
    ∃ new, ((build b options).run w).2.events = u.events ++ new ∧
      ∀ command, .killed command ∈ new → ∃ c s f e k, Begun b options w output u (.ok c) s ∧
        FailsAt b options output f s e k ∧ c.command = command

section Stages

variable {b : BuildTools} {options : BuildOptions} {output : TransformOutput}
  {started : Except Failure StartedCommand} {w u s k : Workspace}

theorem build_eq_beforeInstall (b : BuildTools) (options : BuildOptions) :
    build b options = beforeInstall b options >>= fun output =>
      install b options output >>= fun _ => afterInstall b options output := by
  rw [build_eq, beforeInstall]
  simp only [bind_assoc, pure_bind]
  refine congrArg (prepare b options >>= ·) (funext fun output => ?_)
  rw [afterTransform, equip]
  simp only [bind_assoc]

/-- **Keeping the sources fails** at one of them. -/
theorem run_keepSources_eq_error_iff {e : Failure} :
    (keepSources b options output).run s = (.error e, k) ↔
      ∃ f, FailsAt b options output f s e k := by
  cases hkeep : options.keepSourceFiles with
  | false =>
    simp [FailsAt, hkeep, keepSources, onlyIf]
  | true =>
    have hloop : keepSources b options output =
        forEach (writeSource b options) output.allFiles := by
      rw [keepSources, hkeep]
      rfl
    rw [hloop, run_forEach_eq_error_iff]
    constructor
    · rintro ⟨before, f, after, x, h⟩
      exact ⟨f, hkeep, before, after, x, h⟩
    · rintro ⟨f, -, before, after, x, h⟩
      exact ⟨before, f, after, x, h⟩

/-- What a build has come to when the sources are written or not. -/
theorem Begun.run_build (h : Begun b options w output u started s) {kept : Except Failure Unit}
    (hk : (keepSources b options output).run s = (kept, k)) :
    (build b options).run w = (settle (packageManager options) kept started >>= fun _ =>
      afterInstall b options output).run k := by
  rw [build_eq_beforeInstall, run_bind_of_ok h.equipped, run_bind,
    run_install b options output h.tried hk]
  rfl

/-- Writing the sources is not noted as an external program. -/
theorem Begun.external_eq (h : Begun b options w output u started s) {kept : Except Failure Unit}
    (hk : (keepSources b options output).run s = (kept, k)) :
    k.external = u.external ++ tries b options started := by
  rw [(adds_keepSources b options output).external_eq hk,
    PackageManager.external_of_run_start _ _ _ _ h.tried]

/-- **A build is cancelled** where keeping the sources fails. -/
theorem Begun.run_of_error (h : Begun b options w output u started s) {e : Failure}
    (hk : (keepSources b options output).run s = (.error e, k)) :
    (build b options).run w = (.error e, k.afterKill started) := by
  rw [h.run_build hk]
  cases started with
  | error e' => rfl
  | ok c =>
    have hkill : (settle (packageManager options) (.error e) (.ok c)).run k =
        (.error e, k.afterKill (.ok c)) :=
      run_bind_of_ok (PackageManager.run_kill c k)
    exact run_bind_of_error hkill

/-- From the sources on, a command is killed only where keeping them has failed. -/
theorem Begun.spared_of_run (h : Begun b options w output u started s)
    {kept : Except Failure Unit} (hk : (keepSources b options output).run s = (kept, k)) :
    ∃ new, ((build b options).run w).2.events = k.events ++ new ∧
      ∀ command, .killed command ∈ new → ∃ c f e, started = .ok c ∧
        FailsAt b options output f s e k ∧ c.command = command := by
  match kept with
  | .ok () =>
    -- neither waiting for the installation nor what is done after it kills anything
    have hrest : (settle (packageManager options) (.ok ()) started >>= fun _ =>
        afterInstall b options output).Adds Event.Spares := by
      refine Adds.bind ?_ fun _ => adds_afterInstall b options output
      cases started with
      | error e => exact adds_failure _
      | ok c => exact (packageManager options).adds_finish c
    obtain ⟨new, hnew, hspares⟩ := hrest k
    refine ⟨new, by rw [h.run_build hk, hnew], fun command hmem => ?_⟩
    exact absurd rfl (hspares _ hmem command)
  | .error e =>
    obtain ⟨f, hfails⟩ := run_keepSources_eq_error_iff.1 hk
    rw [h.run_of_error hk]
    cases started with
    | error e' => exact ⟨[], (List.append_nil _).symm, by simp⟩
    | ok c =>
      refine ⟨_, rfl, fun command hmem => ⟨c, f, e, rfl, hfails, Eq.symm ?_⟩⟩
      simpa using hmem

/-- Where a command is killed, keeping the sources has failed. -/
theorem Begun.spared (h : Begun b options w output u started s) :
    ∃ new, ((build b options).run w).2.events = u.events ++ new ∧
      ∀ command, .killed command ∈ new → ∃ c f e k, started = .ok c ∧
        FailsAt b options output f s e k ∧ c.command = command := by
  match hk : (keepSources b options output).run s with
  | (kept, k) =>
    obtain ⟨first, hfirst, hstart⟩ :=
      ((packageManager options).adds_start b.tools b.policy ["install"]).of_run h.tried
    obtain ⟨second, hsecond, hsources⟩ := (adds_keepSources b options output).spares.of_run hk
    obtain ⟨third, hthird, hrest⟩ := h.spared_of_run hk
    refine ⟨first ++ (second ++ third), ?_, fun command hmem => ?_⟩
    · rw [hthird, hsecond, hfirst, List.append_assoc, List.append_assoc]
    · simp only [List.mem_append] at hmem
      obtain hmem | hmem | hmem := hmem
      · exact absurd rfl (hstart _ hmem command)
      · exact absurd rfl (hsources _ hmem command)
      · obtain ⟨c, f, e, hstarted, hfails, hcommand⟩ := hrest command hmem
        exact ⟨c, f, e, k, hstarted, hfails, hcommand⟩

end Stages

/-- **In every build the installation is settled**, whatever the package manager does and at
whatever source writing the sources fails. -/
theorem installation_settled (w : Workspace) : Settled b options w where
  unreached e v h := by
    rw [build_eq_beforeInstall, run_bind_of_error h]
  unlaunched halone r u h := (adds_beforeInstall b options halone).external_eq h
  cancelled output u started s f e k h hfails := by
    have hk := run_keepSources_eq_error_iff.2 ⟨f, hfails⟩
    exact ⟨h.run_of_error hk, by rw [Workspace.external_afterKill, h.external_eq hk]⟩
  unstarted output u e s k h hk := by
    exact ⟨(h.run_build hk).trans rfl, h.external_eq hk⟩
  awaited output u c s k h hk := by
    constructor
    · have hfinish := (packageManager options).run_finish c k
      rw [h.run_build hk]
      by_cases hcode : c.exitCode = 0
      · rw [if_pos hcode] at hfinish ⊢
        exact run_bind_of_ok hfinish
      · rw [if_neg hcode] at hfinish ⊢
        exact run_bind_of_error hfinish
    · rw [Workspace.afterExit, Workspace.external_note rfl, h.external_eq hk]
  spared output u h := by
    match htried : ((packageManager options).start b.tools b.policy ["install"]).run u with
    | (started, s) =>
      obtain ⟨new, hnew, hkilled⟩ := Begun.spared ⟨h, htried⟩
      refine ⟨new, hnew, fun command hmem => ?_⟩
      obtain ⟨c, f, e, k, rfl, hfails, hcommand⟩ := hkilled command hmem
      exact ⟨c, s, f, e, k, ⟨h, htried⟩, hfails, hcommand⟩

/-- **Whether a build is cancelled** while its installation runs. -/
def isCancelled (w : Workspace) : Bool :=
  match (beforeInstall b options).run w with
  | (.error _, _) => false
  | (.ok output, u) =>
    match ((packageManager options).start b.tools b.policy ["install"]).run u with
    | (.error _, _) => false
    | (.ok _, s) => ((keepSources b options output).run s).1 matches .error _

theorem of_isCancelled {w : Workspace} (h : isCancelled b options w = true) :
    ∃ output u c s f e k, Begun b options w output u (.ok c) s ∧
      FailsAt b options output f s e k := by
  rw [isCancelled] at h
  split at h
  · simp at h
  · rename_i output u hequipped
    split at h
    · simp at h
    · rename_i c s htried
      match hk : (keepSources b options output).run s with
      | (.ok (), k) =>
        rw [hk] at h
        simp at h
      | (.error e, k) =>
        obtain ⟨f, hfails⟩ := run_keepSources_eq_error_iff.1 hk
        exact ⟨output, u, c, s, f, e, k, ⟨hequipped, htried⟩, hfails⟩

/-- A module of a package that keeps its sources. -/
def keptOutput : TransformOutput where
  main :=
    { FileGroup.empty with
      files := [⟨"mod.ts", "export const a = 1;\n"⟩]
      entryPoints := ["mod.ts"] }
  test := .empty
  warnings := []

/-- The sources are kept. -/
def keepingOptions : BuildOptions where
  entryPoints := [.bare "./mod.ts"]
  outDir := .ofString "./npm"
  package := [(.text "name", .str "x")]
  typeCheck := true
  test := true
  declaration := true
  keepSourceFiles := true
  keepTestFiles := false
  rootTestDir := some (.ofString "./tests")
  testPattern := .null
  shim := .standard
  mappings := []
  target := none

/-- A workspace where a file stands in the place of the directory of the sources. -/
def blockedWorkspace : Workspace :=
  .fresh (.ofString "/p") <|
    (((FileTree.empty.insert ["p"] .directory).insert ["p", "tests"] .directory).insert
      ["p", "npm"] .directory).insert ["p", "npm", "src"] (.file ByteArray.empty)

/-- A build with a package manager and a compiler that find no fault. -/
def keepingBuild : BuildTools :=
  { BuildTools.standard
      { platform := "linux"
        packageManager := fun _ _ => .exits 0
        compiler := fun _ _ => .exits 0 "" "" [] } with
    transformer := some fun _ => pure keptOutput }

theorem installation_settled_blocked : ∃ e v,
    (build keepingBuild keepingOptions).run blockedWorkspace = (.error e, v) ∧
    v.external =
      [.launched ["npm", "install"] (.ofString "./npm"), .killed ["npm", "install"]] := by
  have hcancelled : isCancelled keepingBuild keepingOptions blockedWorkspace = true := by
    decide +kernel
  have halone : keepingBuild.TransformsAlone := by
    rintro _ h request
    obtain rfl := Option.some.inj h
    exact adds_pure _
  have hall := installation_settled keepingBuild keepingOptions blockedWorkspace
  obtain ⟨output, u, c, s, f, e, k, hbegun, hfails⟩ := of_isCancelled _ _ hcancelled
  obtain ⟨hrun, hexternal⟩ := hall.cancelled _ _ _ _ _ _ _ hbegun hfails
  refine ⟨e, _, hrun, ?_⟩
  rw [hexternal, hall.unlaunched halone _ _ hbegun.equipped, tries, PackageManager.tried,
    PackageManager.killed, (PackageManager.start_ok hbegun.tried).2]
  rfl

end Build

end DenoPackager
