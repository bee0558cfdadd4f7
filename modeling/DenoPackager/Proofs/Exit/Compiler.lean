import DenoPackager.Proofs.Exit.Reading
import DenoPackager.Proofs.Exit.Throws

/-!
# How a run of the compiler ends

What becomes of a run is decided by the compiler once everything is staged. It is not there, it
takes too long, or it exits: then what it printed is read, and only if nothing can be read there
does the exit code count.

## Main definitions

* `Compiler.outcome?`: what becomes of the run of the compiler, if it gets that far.

## Main results

* `Compiler.run_of_exit`: how a run ends, by the exit code and the printed text.
-/

namespace DenoPackager

open DenoPackager.Action

/-- A run by its result and its workspace. -/
theorem Action.run_eq {α : Type} {m : Action α} {w : Workspace} {r : Except Failure α}
    (h : (m.run w).1 = r) : m.run w = (r, (m.run w).2) :=
  Prod.ext h rfl

/-- What comes of temporary work is what comes of the work. -/
theorem run_withTemporary {α : Type} (dir : Place) (start : String) (body : Path → Action α)
    (w : Workspace) :
    ((withTemporary dir start body).run w).1 =
      ((body ⟨.single, temporaryPlace w.tree dir start⟩).run
        (w.withDirectory (temporaryPlace w.tree dir start))).1 := rfl

theorem run_forEach_log {α : Type} (level : Level) (message : α → String) (as : List α)
    (w : Workspace) : ∃ v, (forEach (fun a => log level (message a)) as).run w = (.ok (), v) := by
  induction as generalizing w with
  | nil => exact ⟨w, rfl⟩
  | cons a as ih =>
    obtain ⟨v, hv⟩ := ih { w with events := w.events ++ [.logged level (message a)] }
    exact ⟨v, (run_bind_of_ok (run_note _ _)).trans hv⟩

namespace Compiler

variable (c : Compiler) (tools : Tools) (policy : Policy) (options : CompilerOptions)
  (files : List (String × String)) (purpose : Purpose)

/-- Everything up to the point where the compiler is executed. -/
def ready : Action (CompilerRun × List (String × String)) := do
  let (root, dir) ← openRoot options
  let w ← Action.get
  let place := temporaryPlace w.tree dir ".dnt-staging-"
  Action.modify (·.withDirectory place)
  c.stage tools policy options root files purpose ⟨.single, place⟩

/-- **What becomes of the run**, if it gets as far as the compiler. -/
def outcome? (w : Workspace) : Option CompilerOutcome :=
  match (c.ready tools policy options files purpose).run w with
  | (.ok (run, _), u) => some (tools.compiler u run)
  | (.error _, _) => none

/-- A compiler that always does the same does so in any run. -/
theorem outcome?_eq {o : CompilerOutcome} (h : ∀ u run, tools.compiler u run = o) {w : Workspace}
    (hready : (c.outcome? tools policy options files purpose w).isSome) :
    c.outcome? tools policy options files purpose w = some o := by
  rw [outcome?] at hready ⊢
  split
  · rw [h]
  · rename_i heq
    rw [heq] at hready
    simp at hready

/-- What the execution of the compiler comes to, if it exits: the files it leaves may be ones
that cannot be written. -/
theorem run_execute_of_exit {run : CompilerRun} {code : Int} {stdout stderr : String}
    {outputs : List (String × ByteArray)} {u : Workspace}
    (h : tools.compiler u run = .exits code stdout stderr outputs) :
    (∃ e v, (c.execute tools purpose run).run u = (.error e, v) ∧ e.OfFiles) ∨
      ∃ v, (c.execute tools purpose run).run u = (.ok (code, stdout, stderr), v) := by
  have hrun : (c.execute tools purpose run).run u =
      (do
        leaveOutputs purpose outputs
        pure (code, stdout, stderr) : Action (Int × String × String)).run
        { u with events := u.events ++ [.compiled run] } := by
    rw [execute, run_bind_of_ok (run_get u), run_bind_of_ok (run_note _ _), h]
  match hl : (leaveOutputs purpose outputs).run
      { u with events := u.events ++ [.compiled run] } with
  | (.ok (), v) =>
    right
    exact ⟨v, hrun.trans (run_bind_of_ok hl)⟩
  | (.error e, v) =>
    left
    exact ⟨e, v, hrun.trans (run_bind_of_error hl), throws_leaveOutputs purpose outputs _ e v hl⟩

/-- What is made of the printed text: it cannot be read, it is blank in spite of a bad exit, or
its diagnostics are the answer. -/
theorem interpret_cases (command : List String) (code : Int) (stdout stderr : String)
    (staged : List (String × String)) (w : Workspace) :
    (∃ f, ((interpret command (code, stdout, stderr) staged).run w).1 = .error (.fault f)) ∨
      ∃ reading, CompilerOutput.parse (printedText stdout stderr) staged.reverse = .ok reading ∧
        ((interpret command (code, stdout, stderr) staged).run w).1 =
          if code ≠ 0 ∧ reading.diagnostics = [] then
            .error (.problem (.compilerFailed code (printedText stdout stderr) command))
          else .ok reading.diagnostics := by
  match hp : CompilerOutput.parse (printedText stdout stderr) staged.reverse with
  | .error f =>
    left
    exact ⟨f, congrArg Prod.fst (run_bind_of_error (run_look_of_error hp))⟩
  | .ok reading =>
    right
    refine ⟨reading, rfl, ?_⟩
    obtain ⟨u, hu⟩ := run_forEach_log .debug
      (fun line => "Ignoring unrecognised compiler output: " ++ line) reading.ignored w
    rw [interpret, run_bind_of_ok (run_look_of_ok hp), run_bind_of_ok hu]
    split
    · rfl
    · rfl

/-- **How a run ends**, if the compiler exits. The exit code counts only if nothing can be read
in what was printed. -/
theorem run_of_exit {code : Int} {stdout stderr : String} {outputs : List (String × ByteArray)}
    {w : Workspace}
    (h : c.outcome? tools policy options files purpose w =
      some (.exits code stdout stderr outputs)) :
    StoppedByFiles ((c.run tools policy options files purpose).run w).1 ∨
      ∃ names reading command,
        CompilerOutput.parse (printedText stdout stderr) names = .ok reading ∧
        ((c.run tools policy options files purpose).run w).1 =
          if code ≠ 0 ∧ reading.diagnostics = [] then
            .error (.problem (.compilerFailed code (printedText stdout stderr) command))
          else .ok reading.diagnostics := by
  rw [outcome?] at h
  split at h
  · rename_i run staged u hready
    obtain ⟨⟨root, dir⟩, v, hv, hready⟩ := of_run_bind_eq_ok hready
    simp only [run_bind_of_ok (run_get _), run_bind_of_ok (run_modify _ _)] at hready
    -- The run goes on from the same staged sources.
    have hrun : (c.run tools policy options files purpose).run w =
        (withTemporary dir ".dnt-staging-" (c.stagedRun tools policy options root files purpose) >>=
          fun ending => interpret ending.1 ending.2.1 ending.2.2).run v := by
      rw [Compiler.run, run_bind_of_ok hv]
    have hstaged : ((withTemporary dir ".dnt-staging-" (c.stagedRun tools policy options root files
        purpose)).run v).1 = ((c.execute tools purpose run >>= fun ending =>
          pure (run.command, ending, staged)).run u).1 := by
      rw [run_withTemporary, stagedRun, run_bind_of_ok hready]
    rw [hrun]
    rcases c.run_execute_of_exit tools purpose (Option.some.inj h) with
      ⟨e, u', hu', he⟩ | ⟨u', hu'⟩
    · left
      rw [run_bind_of_error hu'] at hstaged
      exact ⟨e, congrArg Prod.fst (run_bind_of_error (run_eq hstaged)), he⟩
    · rw [run_bind_of_ok hu', run_pure] at hstaged
      rw [run_bind_of_ok (run_eq hstaged)]
      rcases interpret_cases run.command code stdout stderr staged _ with
        ⟨f, hf⟩ | ⟨reading, hreading, hresult⟩
      · exact .inl ⟨.fault f, hf, trivial⟩
      · exact .inr ⟨staged.reverse, reading, run.command, hreading, hresult⟩
  · simp at h

end Compiler

end DenoPackager
