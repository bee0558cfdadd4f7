import DenoPackager.Emission

/-!
# What an action can fail with

The writing of files can fail in two ways only: the file system does not do it, or the policy does
not allow it. Everything else that an emission fails with is about the compilation.

## Main definitions

* `Action.Throws`: all that an action can fail with.
* `Failure.OfFiles`, `Failure.OfCompilation`: failures of the two kinds.
* `StoppedByFiles`, `StoppedByCompilation`: results that are such failures.

## Main results

* `Program.throws_relay`, `Pass.throws_writeManifest`: handing on emitted files and writing the
  small manifest fail for the files' sake only.
-/

namespace DenoPackager

/-- **A failure of the file system**, or a refusal to write. -/
def Failure.OfFiles : Failure → Prop
  | .fault _ => True
  | .problem (.writeDenied _) => True
  | .problem _ => False

/-- **A failure of the compilation**: of the compiler itself or of an emission. -/
def Failure.OfCompilation (e : Failure) : Prop :=
  ∃ p, e = .problem p ∧ (p.report.kind = .compiler ∨ p.report.kind = .emission)

/-- **Stopped by files**: what was to be done failed for the files' sake. -/
def StoppedByFiles {α : Type} (r : Except Failure α) : Prop :=
  ∃ e, r = .error e ∧ e.OfFiles

/-- **Stopped by the compilation.** -/
def StoppedByCompilation {α : Type} (r : Except Failure α) : Prop :=
  ∃ e, r = .error e ∧ e.OfCompilation

namespace Action

variable {α β : Type} {P : Failure → Prop}

/-- **All that an action can fail with** has a property. -/
def Throws (P : Failure → Prop) (m : Action α) : Prop :=
  ∀ w e v, m.run w = (.error e, v) → P e

theorem throws_pure (a : α) : (pure a : Action α).Throws P := by
  intro w e v h
  simp at h

theorem throws_of_ok {m : Action α} (h : ∀ w, ∃ a v, m.run w = (.ok a, v)) : m.Throws P := by
  intro w e v he
  obtain ⟨a, u, hu⟩ := h w
  rw [hu] at he
  simp at he

theorem throws_get : get.Throws P := throws_of_ok fun w => ⟨w, w, rfl⟩

theorem throws_modify (f : Workspace → Workspace) : (modify f).Throws P :=
  throws_of_ok fun w => ⟨(), f w, rfl⟩

theorem throws_log (level : Level) (message : String) : (log level message).Throws P :=
  throws_modify _

theorem throws_fail {p : Problem} (h : P (.problem p)) : (fail p : Action α).Throws P := by
  intro w e v he
  have heq : Failure.problem p = e := Except.error.inj (congrArg Prod.fst he)
  exact heq ▸ h

theorem throws_look (h : ∀ f, P (.fault f)) (f : FileTree → Path → Except Fault α) :
    (look f).Throws P := by
  intro w e v he
  simp only [run, look] at he
  split at he
  · simp at he
  · rw [Prod.mk.injEq, Except.error.injEq] at he
    rw [← he.1]
    exact h _

theorem throws_change (h : ∀ f, P (.fault f)) (f : FileTree → Path → Except Fault Unit × FileTree) :
    (change f).Throws P := by
  intro w e v he
  simp only [run, change] at he
  split at he
  · simp at he
  · rw [Prod.mk.injEq, Except.error.injEq] at he
    rw [← he.1]
    exact h _

theorem throws_step (h : ∀ f, P (.fault f)) (f : FileTree → Path → Except Fault FileTree) :
    (step f).Throws P := by
  intro w e v he
  simp only [run, step] at he
  split at he
  · simp at he
  · rw [Prod.mk.injEq, Except.error.injEq] at he
    rw [← he.1]
    exact h _

/-- **One action after the other** fails with what one of them fails with. -/
theorem Throws.bind {m : Action α} {f : α → Action β} (hm : m.Throws P)
    (hf : ∀ a, (f a).Throws P) : (m >>= f).Throws P := by
  intro w e v he
  match hr : m.run w with
  | (.ok a, u) =>
    rw [run_bind_of_ok hr] at he
    exact hf a u e v he
  | (.error e', u) =>
    rw [run_bind_of_error hr, Prod.mk.injEq, Except.error.injEq] at he
    rw [← he.1]
    exact hm w e' u hr

theorem Throws.forEach {f : α → Action Unit} (h : ∀ a, (f a).Throws P) (as : List α) :
    (forEach f as).Throws P := by
  induction as with
  | nil => exact throws_pure ()
  | cons a as ih => exact (h a).bind fun _ => ih

theorem Throws.mapEach {f : α → Action β} (h : ∀ a, (f a).Throws P) (as : List α) :
    (mapEach f as).Throws P := by
  induction as with
  | nil => exact throws_pure []
  | cons a as ih => exact (h a).bind fun b => ih.bind fun bs => throws_pure (b :: bs)

end Action

open DenoPackager.Action

/-! ### Writing files -/

theorem Failure.ofFiles_fault (f : Fault) : Failure.OfFiles (.fault f) := trivial

theorem Policy.throws_checkWrite (policy : Policy) (text : String) :
    (policy.checkWrite text).Throws Failure.OfFiles := by
  refine throws_get.bind fun w => ?_
  simp only
  split
  · exact throws_pure ()
  · exact (throws_log _ _).bind fun _ => throws_fail trivial

theorem Writer.throws_seeTo (dir : Path) : (seeTo dir).Throws Failure.OfFiles := by
  refine throws_get.bind fun w => ?_
  split
  · exact throws_pure ()
  · exact (throws_change Failure.ofFiles_fault _).bind fun _ => throws_modify _

/-- **Writing a file** fails for the files' sake only. -/
theorem Writer.throws_writeMarked (policy : Policy) (path : Path) (text : String) (mark : Bool) :
    (writeMarked policy path text mark).Throws Failure.OfFiles := by
  refine (policy.throws_checkWrite path.text).bind fun _ => ?_
  refine (throws_seeTo path.parent).bind fun _ => ?_
  refine (throws_step Failure.ofFiles_fault _).bind fun _ => ?_
  exact (throws_modify _).bind fun _ => throws_modify _

theorem throws_leaveOutputs (purpose : Purpose) (outputs : List (String × ByteArray)) :
    (leaveOutputs purpose outputs).Throws Failure.OfFiles := by
  cases purpose with
  | check => exact throws_pure ()
  | emit declarationsOnly dir =>
    cases dir with
    | none => exact throws_pure ()
    | some dir =>
      rw [leaveOutputs, writeOutputs]
      refine Throws.forEach (fun output => ?_) outputs
      exact (throws_change Failure.ofFiles_fault _).bind fun _ =>
        throws_step Failure.ofFiles_fault _

/-- **Handing on an emitted file** fails for the files' sake only. -/
theorem Program.throws_relay (scratch outDir : Path) (policy : Policy) (place : Place) :
    (relay scratch outDir (Pass.writeEmitted policy) place).Throws Failure.OfFiles := by
  refine (throws_look Failure.ofFiles_fault _).bind fun content => ?_
  exact (Writer.throws_writeMarked policy _ _ _).bind fun _ => throws_pure _

/-- **Writing the small manifest** fails for the files' sake only. -/
theorem Pass.throws_writeManifest (policy : Policy) (package : Path) (pass : Pass) :
    (pass.writeManifest policy package).Throws Failure.OfFiles := by
  cases pass with
  | declarations => exact throws_pure ()
  | esm => exact Writer.throws_writeMarked policy _ _ false
  | umd => exact Writer.throws_writeMarked policy _ _ false

end DenoPackager
