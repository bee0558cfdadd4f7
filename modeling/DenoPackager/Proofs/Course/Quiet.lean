import DenoPackager.Proofs.Course.Deed

/-!
# What does nothing, and what does one thing

Most of a build is quiet: it looks, logs, makes directories, stages sources and reads what the
compiler printed. The few actions that do something do one thing each.

## Main results

* `fulfils_writeMarked`, `fulfils_remove`: writing or removing a file is one deed.
* `deeds_start`, `fulfils_finish`: trying to start a command is a deed if the policy lets it be
  tried, and a good end is one.
-/

namespace DenoPackager

namespace Action

variable {α β : Type}

/-! ### Quiet actions -/

theorem quiet_of_events {m : Action α} (h : ∀ w, (m.run w).2.events = w.events) : m.Quiet :=
  fun w => congrArg (List.filterMap Deed.ofEvent) (h w)

theorem quiet_pure (a : α) : (pure a : Action α).Quiet := quiet_of_events fun _ => rfl

theorem quiet_failure (e : Failure) : (failure e : Action α).Quiet := quiet_of_events fun _ => rfl

theorem quiet_fail (p : Problem) : (fail p : Action α).Quiet := quiet_failure _

theorem quiet_fault (f : Fault) : (fault f : Action α).Quiet := quiet_failure _

theorem quiet_get : get.Quiet := quiet_of_events fun _ => rfl

theorem quiet_ofExcept (r : Except Failure α) : (ofExcept r).Quiet := by
  cases r with
  | ok a => exact quiet_pure a
  | error e => exact quiet_failure e

theorem quiet_modify {f : Workspace → Workspace} (h : ∀ w, (f w).events = w.events) :
    (modify f).Quiet :=
  quiet_of_events h

theorem quiet_look (f : FileTree → Path → Except Fault α) : (look f).Quiet := by
  refine quiet_of_events fun w => ?_
  simp only [run, look]
  split <;> rfl

theorem quiet_change (f : FileTree → Path → Except Fault Unit × FileTree) : (change f).Quiet := by
  refine quiet_of_events fun w => ?_
  simp only [run, change]
  split <;> rfl

theorem quiet_step (f : FileTree → Path → Except Fault FileTree) : (step f).Quiet := by
  refine quiet_of_events fun w => ?_
  simp only [run, step]
  split <;> rfl

theorem deeds_note (e : Event) (w : Workspace) :
    ((note e).run w).2.deeds = w.deeds ++ (Deed.ofEvent e).toList := by
  have hrun : ((note e).run w).2.events = w.events ++ [e] := rfl
  rw [Workspace.deeds, hrun, List.filterMap_append]
  cases h : Deed.ofEvent e <;> simp [h, Workspace.deeds]

theorem quiet_note {e : Event} (h : Deed.ofEvent e = none) : (note e).Quiet := by
  intro w
  rw [deeds_note, h, Option.toList_none, List.append_nil]

theorem quiet_log (level : Level) (message : String) : (log level message).Quiet :=
  quiet_note rfl

theorem Quiet.bind {m : Action α} {f : α → Action β} (hm : m.Quiet) (hf : ∀ a, (f a).Quiet) :
    (m >>= f).Quiet := by
  intro w
  match hr : m.run w with
  | (.ok a, v) => rw [run_bind_of_ok hr, hf a v, ← hm w, hr]
  | (.error e, v) => rw [run_bind_of_error hr, ← hm w, hr]

theorem Quiet.onlyIf {m : Action Unit} (wanted : Bool) (h : m.Quiet) : (onlyIf wanted m).Quiet := by
  cases wanted with
  | true => exact h
  | false => exact quiet_pure ()

theorem Quiet.forEach {f : α → Action Unit} (h : ∀ a, (f a).Quiet) (as : List α) :
    (forEach f as).Quiet := by
  induction as with
  | nil => exact quiet_pure ()
  | cons a as ih => exact (h a).bind fun _ => ih

theorem Quiet.mapEach {f : α → Action β} (h : ∀ a, (f a).Quiet) (as : List α) :
    (mapEach f as).Quiet := by
  induction as with
  | nil => exact quiet_pure []
  | cons a as ih => exact (h a).bind fun b => ih.bind fun bs => quiet_pure (b :: bs)

/-! ### One deed -/

/-- A message fulfils the empty plan. -/
theorem fulfils_log (level : Level) (message : String) (w : Workspace) :
    (log level message).Fulfils w [] :=
  ⟨[], (quiet_log level message w).trans (List.append_nil _).symm, List.nil_prefix, fun _ => rfl,
    fun _ => ⟨(), rfl⟩⟩

/-- A failure does not fulfil a plan, but begins it. -/
theorem fulfils_failure (e : Failure) {plan : List Deed} (h : plan ≠ []) (w : Workspace) :
    (failure e : Action α).Fulfils w plan :=
  ⟨[], (List.append_nil _).symm, List.nil_prefix, fun ⟨a, ha⟩ => by simp [run, failure] at ha,
    fun he => absurd he.symm h⟩

/-- Noting a deed fulfils it. -/
theorem fulfils_note {e : Event} {d : Deed} (h : Deed.ofEvent e = some d) (w : Workspace) :
    (note e).Fulfils w [d] := by
  refine ⟨[d], ?_, List.prefix_refl _, fun _ => rfl, fun _ => ⟨(), rfl⟩⟩
  rw [deeds_note, h, Option.toList_some]

end Action

open DenoPackager.Action

theorem Policy.quiet_checkWrite (policy : Policy) (text : String) :
    (policy.checkWrite text).Quiet := by
  refine quiet_get.bind fun w => ?_
  simp only
  split
  · exact quiet_pure ()
  · exact (quiet_log _ _).bind fun _ => quiet_fail _

theorem Policy.quiet_checkRun (policy : Policy) (command : String) :
    (policy.checkRun command).Quiet := by
  simp only [Policy.checkRun]
  split
  · exact quiet_pure ()
  · exact (quiet_log _ _).bind fun _ => quiet_fail _

/-- What may not be started is not started. -/
theorem Policy.run_checkRun (policy : Policy) (command : String) (w : Workspace) :
    (∃ v, (policy.checkRun command).run w =
      (if policy.allowsRun command then .ok () else .error (.problem (.runDenied command)), v)) := by
  simp only [Policy.checkRun]
  split <;> exact ⟨_, rfl⟩

namespace Writer

theorem quiet_seeTo (dir : Path) : (seeTo dir).Quiet := by
  refine quiet_get.bind fun w => ?_
  split
  · exact quiet_pure ()
  · exact (quiet_change _).bind fun _ => quiet_modify fun _ => rfl

/-- **Writing** a file is one deed. -/
theorem fulfils_writeMarked (policy : Policy) (path : Path) (text : String) (mark : Bool)
    (w : Workspace) : (writeMarked policy path text mark).Fulfils w [.wrote path] := by
  have hne : [Deed.wrote path] ≠ [] := by simp
  refine (policy.quiet_checkWrite path.text).bind_fulfils hne fun _ _ _ => ?_
  refine (quiet_seeTo path.parent).bind_fulfils hne fun _ _ _ => ?_
  refine (quiet_step _).bind_fulfils hne fun _ _ _ => ?_
  refine (quiet_of_events fun _ => rfl).bind_fulfils hne fun _ _ _ => ?_
  exact fulfils_note rfl _

theorem fulfils_write (policy : Policy) (path : Path) (text : String) (w : Workspace) :
    (write policy path text).Fulfils w [.wrote path] :=
  fulfils_writeMarked policy path text false w

/-- **Removing** a file is one deed. -/
theorem fulfils_remove (policy : Policy) (path : String) (w : Workspace) :
    (remove policy path).Fulfils w [.removed path] := by
  have hne : [Deed.removed path] ≠ [] := by simp
  refine (policy.quiet_checkWrite path).bind_fulfils hne fun _ _ _ => ?_
  refine (quiet_log _ _).bind_fulfils hne fun _ _ _ => ?_
  refine (quiet_step _).bind_fulfils hne fun _ _ _ => ?_
  exact fulfils_note rfl _

/-- Removing files is a deed for each of them. -/
theorem fulfils_removeAll (policy : Policy) (dir : Path) (names : List String) (w : Workspace) :
    (removeAll policy dir names).Fulfils w
      (names.map fun name => .removed (dir.joinText name).text) := by
  have hall := Fulfils.forEach (fun name w => fulfils_remove policy (dir.joinText name).text w)
    names w
  have h := hall.bind (q := []) (f := fun _ => log .debug
    ("Removed " ++ Problem.count names.length ++ " test artifact(s)")) fun _ v _ =>
      fulfils_log _ _ v
  rwa [List.append_nil] at h

end Writer

namespace PackageManager

/-- Whether the policy lets a command of the package manager be tried. -/
def mayStart (m : PackageManager) (tools : Tools) (policy : Policy) (args : List String) : Bool :=
  policy.allowsRun ((m.commandFor tools args).headD "")

/-- What is tried when a command is started: nothing, if the policy is against it. -/
def attempts (m : PackageManager) (tools : Tools) (policy : Policy) (args : List String) :
    List Deed :=
  if m.mayStart tools policy args then [.started (m.commandFor tools args)] else []

variable {m : PackageManager} {tools : Tools} {policy : Policy} {args : List String}

theorem quiet_outcome (command : List String) (o : CommandOutcome) :
    (m.outcome args command o).Quiet := by
  cases o with
  | missing => exact (quiet_note rfl).bind fun _ => quiet_fail _
  | exits code => exact quiet_pure _

/-- A command that is not allowed is not tried. -/
theorem run_start_denied (h : m.mayStart tools policy args = false) (w : Workspace) :
    ∃ e v, (m.start tools policy args).run w = (.error e, v) ∧ v.deeds = w.deeds := by
  obtain ⟨v, hv⟩ := policy.run_checkRun ((m.commandFor tools args).headD "") w
  have hquiet := policy.quiet_checkRun ((m.commandFor tools args).headD "") w
  simp only [mayStart] at h
  rw [h, if_neg Bool.false_ne_true] at hv
  rw [hv] at hquiet
  exact ⟨_, v, run_bind_of_error hv, hquiet⟩

/-- A command that is allowed is tried, and what comes of it is up to the program. -/
theorem run_start_allowed (h : m.mayStart tools policy args = true) (w : Workspace) :
    ∃ u v, (m.start tools policy args).run w =
        (m.outcome args (m.commandFor tools args)
          (tools.packageManager u (m.commandFor tools args))).run v ∧
      v.deeds = w.deeds ++ [.started (m.commandFor tools args)] := by
  obtain ⟨v, hv⟩ := policy.run_checkRun ((m.commandFor tools args).headD "") w
  have hquiet := policy.quiet_checkRun ((m.commandFor tools args).headD "") w
  simp only [mayStart] at h
  rw [h, if_pos rfl] at hv
  rw [hv] at hquiet
  obtain ⟨u, hu⟩ : ∃ u, (log .debug ("Running " ++ commandLine (m.commandFor tools args) ++
      " in " ++ m.directory.text)).run v = (.ok (), u) := ⟨_, rfl⟩
  have hlog : u.deeds = v.deeds := by
    rw [← quiet_log .debug ("Running " ++ commandLine (m.commandFor tools args) ++ " in " ++
      m.directory.text) v, hu]
  refine ⟨u, ((note (.launched (m.commandFor tools args) m.directory)).run u).2, ?_, ?_⟩
  · exact (run_bind_of_ok hv).trans ((run_bind_of_ok hu).trans rfl)
  · rw [deeds_note, hlog, hquiet]
    rfl

/-- **Trying to start** a command is a deed, if the policy lets it be tried. -/
theorem deeds_start (w : Workspace) :
    ((m.start tools policy args).run w).2.deeds = w.deeds ++ m.attempts tools policy args := by
  cases h : m.mayStart tools policy args with
  | true =>
    obtain ⟨u, v, hrun, hv⟩ := run_start_allowed h w
    rw [hrun, m.quiet_outcome, hv, attempts, if_pos h]
  | false =>
    obtain ⟨e, v, hrun, hv⟩ := run_start_denied h w
    rw [hrun, hv, attempts, h, if_neg Bool.false_ne_true, List.append_nil]

/-- A command that was started was allowed. -/
theorem start_ok {w v : Workspace} {c : StartedCommand}
    (h : (m.start tools policy args).run w = (.ok c, v)) :
    m.mayStart tools policy args = true ∧ c.command = m.commandFor tools args := by
  cases hmay : m.mayStart tools policy args with
  | true =>
    refine ⟨rfl, ?_⟩
    obtain ⟨u, u', hrun, -⟩ := run_start_allowed hmay w
    rw [h] at hrun
    cases ho : tools.packageManager u (m.commandFor tools args) with
    | missing =>
      rw [ho] at hrun
      exact absurd (congrArg Prod.fst hrun) (by simp [outcome, run_bind, run_note, run_fail])
    | exits code =>
      rw [ho, outcome, run_pure, Prod.mk.injEq, Except.ok.injEq] at hrun
      rw [hrun.1]
  | false =>
    obtain ⟨e, u, hrun, -⟩ := run_start_denied hmay w
    rw [h] at hrun
    simp at hrun

/-- **A good end** of a command is a deed. -/
theorem fulfils_finish (c : StartedCommand) (w : Workspace) :
    (m.finish c).Fulfils w [.ended c.command] := by
  by_cases hcode : c.exitCode = 0
  · have hnote : Deed.ofEvent (.exited c.command c.exitCode) = some (.ended c.command) := if_pos hcode
    refine (fulfils_note hnote w).bind (q := []) fun _ v _ => ?_
    rw [if_pos hcode]
    exact fulfils_pure () v
  · have hnote : Deed.ofEvent (.exited c.command c.exitCode) = none := if_neg hcode
    refine (quiet_note hnote).bind_fulfils (by simp) fun _ v _ => ?_
    rw [if_neg hcode]
    exact fulfils_failure _ (by simp) v

/-- **Running** a command is to try to start it and to see a good end. -/
theorem fulfils_run (w : Workspace) :
    (m.run tools policy args).Fulfils w
      (m.attempts tools policy args ++ [.ended (m.commandFor tools args)]) := by
  have hstart : (m.start tools policy args).Follows w (m.attempts tools policy args) :=
    ⟨_, deeds_start w, List.prefix_refl _, fun _ => rfl⟩
  refine hstart.bind_fulfils (by simp) fun c v hc => ?_
  rw [← (start_ok hc).2]
  exact fulfils_finish c v

theorem quiet_kill (c : StartedCommand) : (kill c).Quiet :=
  (quiet_log _ _).bind fun _ => quiet_note rfl

end PackageManager

end DenoPackager
