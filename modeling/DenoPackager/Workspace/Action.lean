import DenoPackager.FileTree.Change
import DenoPackager.Workspace.Event

/-!
# Actions

An action works in a workspace: it looks at the file tree and changes it, adds to the events,
and ends with a value or a failure. What was done before a failure stays done.

## Main definitions

* `Workspace`: the file tree, the current directory, what the writer remembers and the events.
* `Action`: what can be done in a workspace.
* `Action.log`, `Action.fail`, `Action.look`, `Action.change`, `Action.ensuring`: the basic
  actions.

## Main results

* `Action.run_pure`, `Action.run_bind`: what running an action means.
* `Action.of_run_bind_eq_ok`: one action after the other succeeds only if both do.
-/

namespace DenoPackager

/-- **A workspace.** -/
structure Workspace where
  /-- The directory that relative paths are seen from. -/
  cwd : Path
  tree : FileTree
  /-- The directories that the writer has seen to. -/
  created : List Path
  /-- The files written so far, in order. -/
  written : List Path
  /-- What was done so far, in order. -/
  events : List Event

/-- A workspace in which nothing has been done yet. -/
def Workspace.fresh (cwd : Path) (tree : FileTree) : Workspace :=
  { cwd := cwd, tree := tree, created := [], written := [], events := [] }

/-- **Actions** in a workspace. -/
def Action (α : Type) := Workspace → Except Failure α × Workspace

namespace Action

/-- Running an action in a workspace. -/
def run {α : Type} (m : Action α) (w : Workspace) : Except Failure α × Workspace := m w

/-- One action after the other; the second one is left out if the first one fails. -/
def andThen {α β : Type} (m : Action α) (f : α → Action β) : Action β := fun w =>
  match m w with
  | (.ok a, w) => f a w
  | (.error e, w) => (.error e, w)

instance : Monad Action where
  pure a := fun w => (.ok a, w)
  bind := andThen

/-- Nothing is done. -/
@[simp] theorem run_pure {α : Type} (a : α) (w : Workspace) :
    (pure a : Action α).run w = (.ok a, w) := rfl

/-- **One action after the other.** -/
theorem run_bind {α β : Type} (m : Action α) (f : α → Action β) (w : Workspace) :
    (m >>= f).run w =
      match m.run w with
      | (.ok a, w) => (f a).run w
      | (.error e, w) => (.error e, w) := rfl

theorem run_bind_of_ok {α β : Type} {m : Action α} {f : α → Action β} {w v : Workspace} {a : α}
    (h : m.run w = (.ok a, v)) : (m >>= f).run w = (f a).run v := by
  rw [run_bind, h]

theorem run_bind_of_error {α β : Type} {m : Action α} {f : α → Action β} {w v : Workspace}
    {e : Failure} (h : m.run w = (.error e, v)) : (m >>= f).run w = (.error e, v) := by
  rw [run_bind, h]

/-- **Both actions succeeded** if one after the other did. -/
theorem of_run_bind_eq_ok {α β : Type} {m : Action α} {f : α → Action β} {w v : Workspace} {b : β}
    (h : (m >>= f).run w = (.ok b, v)) :
    ∃ a u, m.run w = (.ok a, u) ∧ (f a).run u = (.ok b, v) := by
  match hr : m.run w with
  | (.ok a, u) =>
    rw [run_bind_of_ok hr] at h
    exact ⟨a, u, rfl, h⟩
  | (.error e, u) =>
    rw [run_bind_of_error hr, Prod.mk.injEq] at h
    exact absurd h.1 (by simp)

/-- Failing. -/
def failure {α : Type} (e : Failure) : Action α := fun w => (.error e, w)

/-- **Failing** with a problem. -/
def fail {α : Type} (p : Problem) : Action α := failure (.problem p)

theorem run_fail {α : Type} (p : Problem) (w : Workspace) :
    (fail p : Action α).run w = (.error (.problem p), w) := rfl

/-- Failing with a fault. -/
def fault {α : Type} (f : Fault) : Action α := failure (.fault f)

/-- The value of a computation that may fail. -/
def ofExcept {α : Type} : Except Failure α → Action α
  | .ok a => pure a
  | .error e => failure e

/-- The workspace as it is. -/
def get : Action Workspace := fun w => (.ok w, w)

theorem run_get (w : Workspace) : get.run w = (.ok w, w) := rfl

/-- Changing the workspace. -/
def modify (f : Workspace → Workspace) : Action Unit := fun w => (.ok (), f w)

theorem run_modify (f : Workspace → Workspace) (w : Workspace) :
    (modify f).run w = (.ok (), f w) := rfl

/-- **Adding an event.** -/
def note (e : Event) : Action Unit :=
  modify fun w => { w with events := w.events ++ [e] }

theorem run_note (e : Event) (w : Workspace) :
    (note e).run w = (.ok (), { w with events := w.events ++ [e] }) := rfl

/-- **Logging a message.** -/
def log (level : Level) (message : String) : Action Unit :=
  note (.logged level message)

/-- **Looking** at the tree from the current directory. -/
def look {α : Type} (f : FileTree → Path → Except Fault α) : Action α := fun w =>
  match f w.tree w.cwd with
  | .ok a => (.ok a, w)
  | .error e => (.error (.fault e), w)

theorem run_look_of_ok {α : Type} {f : FileTree → Path → Except Fault α} {w : Workspace} {a : α}
    (h : f w.tree w.cwd = .ok a) : (look f).run w = (.ok a, w) := by
  simp only [run, look, h]

theorem run_look_of_error {α : Type} {f : FileTree → Path → Except Fault α} {w : Workspace}
    {e : Fault} (h : f w.tree w.cwd = .error e) : (look f).run w = (.error (.fault e), w) := by
  simp only [run, look, h]

/-- **Changing** the tree, which may fail half way. -/
def change (f : FileTree → Path → Except Fault Unit × FileTree) : Action Unit := fun w =>
  match f w.tree w.cwd with
  | (.ok (), t) => (.ok (), { w with tree := t })
  | (.error e, t) => (.error (.fault e), { w with tree := t })

/-- Changing the tree in one step, which is done or not. -/
def step (f : FileTree → Path → Except Fault FileTree) : Action Unit := fun w =>
  match f w.tree w.cwd with
  | .ok t => (.ok (), { w with tree := t })
  | .error e => (.error (.fault e), w)

/-- **Cleaning up**: `last` is done to the workspace after the action, however it ends. -/
def ensuring {α : Type} (m : Action α) (last : Workspace → Workspace) : Action α := fun w =>
  match m w with
  | (r, w) => (r, last w)

/-- An action and how it ended, as a value. -/
def attempt {α : Type} (m : Action α) : Action (Except Failure α) := fun w =>
  match m w with
  | (r, w) => (.ok r, w)

/-- An attempt never fails. -/
theorem run_attempt {α : Type} {m : Action α} {w v : Workspace} {r : Except Failure α}
    (h : m.run w = (r, v)) : (attempt m).run w = (.ok r, v) := by
  simp only [run] at h
  simp only [run, attempt, h]

/-- An action, if it is wanted. -/
def onlyIf (wanted : Bool) (m : Action Unit) : Action Unit :=
  if wanted then m else pure ()

/-- An action for each item of a list, in order. -/
def forEach {α : Type} (f : α → Action Unit) : List α → Action Unit
  | [] => pure ()
  | a :: as => do
    f a
    forEach f as

/-- The values of an action for each item of a list, in order. -/
def mapEach {α β : Type} (f : α → Action β) : List α → Action (List β)
  | [] => pure []
  | a :: as => do
    let b ← f a
    let bs ← mapEach f as
    pure (b :: bs)

end Action

end DenoPackager
