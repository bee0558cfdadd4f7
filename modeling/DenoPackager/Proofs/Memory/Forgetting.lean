import DenoPackager.Proofs.Confinement.Writes
import DenoPackager.Proofs.Files.Removal

/-!
# A writer that remembers and one that does not

The writer remembers the directories that it has seen to, and sees to none of them again. A writer
without a memory makes the directories on the way for each file. Nothing tells the two apart: what
is remembered is there, no action of a writer takes a directory away, and making a directory that is
there does nothing.

What is remembered is the path as it was written. Two paths to one directory are seen to one after
the other, and a path is remembered even if the file could not be written in the end.

## Main definitions

* `Workspace.forget`: a workspace whose writer remembers nothing.
* `Workspace.Trusted`: workspaces in which all that is remembered is there.
* `Action.Unobserved`: actions that do the same with and without a memory.
* `Writer.writeAfresh`: writing without a memory.

## Main results

* `FileTree.makeDirs_of_isDirectory`: making a directory that is there does nothing.
* `Action.Unobserved.bind`, `Action.Unobserved.forEach`: one action after the other.
* `Writer.unobserved_writeMarked`, `Writer.unobserved_remove`: what a writer does.
-/

namespace DenoPackager

open DenoPackager.Action

/-! ### Directories that are there -/

namespace FileTree

variable {t u : FileTree} {cwd p : Path} {q : Place}

/-- **A path leads to a directory** if it can be walked to its end. -/
theorem isDirectory_iff : t.isDirectory cwd p = true ↔
    p.parts.any Path.hasNul = false ∧ ∃ dir, t.enter (p.start cwd) p.parts = .ok dir := by
  rw [isDirectory, locate]
  by_cases hnul : p.parts.any Path.hasNul = true
  · simp [hnul]
  rw [if_neg hnul]
  rcases List.eq_nil_or_concat p.parts with hparts | ⟨cs, c, hparts⟩
  · simp [hparts, enter]
  rw [List.concat_eq_append] at hparts
  rw [Bool.not_eq_true] at hnul
  rw [hparts, List.getLast?_concat, List.dropLast_concat, ← hparts, hparts, enter_append, ← hparts]
  cases t.enter (p.start cwd) cs with
  | error e => simp [Except.bind]
  | ok dir =>
    simp only [hnul, Except.bind, lastStep, enter, true_and]
    by_cases hc : c = Path.up
    · simp [hc]
    · simp only [if_neg hc]
      cases t.get? (dir ++ [c]) with
      | none => simp
      | some n => cases n <;> simp

/-- **Making a directory that is there does nothing.** -/
theorem makeDirs_of_isDirectory (h : t.isDirectory cwd p = true) :
    t.makeDirs cwd p = (.ok (), t) := by
  have hensure : t.ensureDir cwd p = .ok t := by
    have hthere := h
    rw [isDirectory] at hthere
    split at hthere
    · rename_i place hlocate
      simp only [ensureDir, makeDir, hlocate, h, if_true]
    · simp at hthere
  rw [makeDirs, hensure]

/-- **A directory that was made is there.** -/
theorem isDirectory_of_makeDirs (hcwd : t.get? cwd.parts = some .directory)
    (h : t.makeDirs cwd p = (.ok (), u)) : u.isDirectory cwd p = true := by
  have hnul : p.parts.any Path.hasNul = false := by
    rw [Bool.eq_false_iff]
    intro hnul
    have hlocate : t.locate cwd p = .error .badValue := if_pos hnul
    rw [makeDirs, ensureDir, makeDir, hlocate] at h
    simp at h
  obtain ⟨htree, hdone⟩ := makeDirs_eq hcwd hnul
  rw [h] at htree hdone
  have hway : t.makeWay (p.start cwd) p.parts = (true, u) := Prod.ext (hdone.1 rfl) htree.symm
  exact isDirectory_iff.2 ⟨hnul, _, (enter_of_makeWay (directory_start hcwd p) hway).1⟩

/-- A directory that is there stays where all directories stay. -/
theorem isDirectory_mono (hdirs : ∀ q, t.get? q = some .directory → u.get? q = some .directory)
    (h : t.isDirectory cwd p = true) : u.isDirectory cwd p = true := by
  obtain ⟨hnul, dir, henter⟩ := isDirectory_iff.1 h
  exact isDirectory_iff.2 ⟨hnul, dir, enter_mono hdirs henter⟩

/-- **Removing keeps all directories.** -/
theorem directories_remove {s : String} (h : t.remove cwd s = .ok u)
    (hq : t.get? q = some .directory) : u.get? q = some .directory := by
  obtain ⟨place, content, hfile, rfl⟩ := remove_eq_ok h
  have hsome : (t.file? place).isSome := by rw [file?_eq_some_iff.2 hfile]; rfl
  exact (sameOutside_erase hsome).1.directories q hq

end FileTree

/-! ### Workspaces -/

namespace Workspace

/-- **A workspace whose writer remembers nothing.** -/
def forget (w : Workspace) : Workspace :=
  { w with created := [] }

/-- **Workspaces in which all that is remembered is there**: the current directory, and all that
were seen to. -/
structure Trusted (w : Workspace) : Prop where
  directory : w.tree.get? w.cwd.parts = some .directory
  created : ∀ dir ∈ w.created, w.tree.isDirectory w.cwd dir = true

/-- **What is remembered stays** where all directories stay. -/
theorem Trusted.mono {w v : Workspace} (hw : w.Trusted) (hcwd : v.cwd = w.cwd)
    (hcreated : v.created = w.created)
    (hdirs : ∀ q, w.tree.get? q = some .directory → v.tree.get? q = some .directory) :
    v.Trusted where
  directory := hcwd ▸ hdirs _ hw.directory
  created dir hdir := by
    rw [hcwd]
    exact FileTree.isDirectory_mono hdirs (hw.created dir (hcreated ▸ hdir))

end Workspace

/-! ### Actions -/

namespace Action

variable {α β : Type} {m m' : Action α} {w : Workspace}

/-- **The memory is not observed**: where all that is remembered is there, the first action comes
to the same as the second one without a memory, and what is remembered then is there as well. -/
def Unobserved (m m' : Action α) : Prop :=
  ∀ w : Workspace, w.Trusted →
    m'.run w.forget = ((m.run w).1, (m.run w).2.forget) ∧ (m.run w).2.Trusted

/-- **One action after the other.** -/
theorem Unobserved.bind {f f' : α → Action β} (hm : Unobserved m m')
    (hf : ∀ a, Unobserved (f a) (f' a)) : Unobserved (m >>= f) (m' >>= f') := by
  intro w hw
  obtain ⟨hrun, htrusted⟩ := hm w hw
  rw [run_bind, run_bind, hrun]
  match hmw : m.run w with
  | (.ok a, v) =>
    rw [hmw] at htrusted
    exact hf a v htrusted
  | (.error e, v) =>
    rw [hmw] at htrusted
    exact ⟨rfl, htrusted⟩

theorem unobserved_pure (a : α) : Unobserved (pure a) (pure a) :=
  fun _ hw => ⟨rfl, hw⟩

/-- Changing what has nothing to do with the memory. -/
theorem unobserved_modify {f : Workspace → Workspace} (hforget : ∀ w, f w.forget = (f w).forget)
    (hkept : ∀ w, (f w).cwd = w.cwd ∧ (f w).created = w.created ∧ (f w).tree = w.tree) :
    Unobserved (modify f) (modify f) := by
  intro w hw
  obtain ⟨hcwd, hcreated, htree⟩ := hkept w
  refine ⟨?_, hw.mono hcwd hcreated fun q hq => ?_⟩
  · rw [run_modify, hforget]
    rfl
  · exact (congrArg (·.get? q) htree).trans hq

theorem unobserved_note (e : Event) : Unobserved (note e) (note e) :=
  unobserved_modify (fun _ => rfl) fun _ => ⟨rfl, rfl, rfl⟩

/-- **A step of the tree that keeps all directories.** -/
theorem unobserved_step {f : FileTree → Path → Except Fault FileTree}
    (hkept : ∀ t u cwd q, t.get? cwd.parts = some .directory → f t cwd = .ok u →
      t.get? q = some .directory → u.get? q = some .directory) :
    Unobserved (step f) (step f) := by
  intro w hw
  cases hstep : f w.tree w.cwd with
  | ok t =>
    have hforget : f w.forget.tree w.forget.cwd = .ok t := hstep
    rw [run_step_of_ok hstep, run_step_of_ok hforget]
    exact ⟨rfl, hw.mono rfl rfl fun q => hkept _ t _ q hw.directory hstep⟩
  | error e =>
    have hforget : f w.forget.tree w.forget.cwd = .error e := hstep
    rw [run_step_of_error hstep, run_step_of_error hforget]
    exact ⟨rfl, hw⟩

theorem Unobserved.forEach {f f' : α → Action Unit} (h : ∀ a, Unobserved (f a) (f' a))
    (as : List α) : Unobserved (forEach f as) (forEach f' as) := by
  induction as with
  | nil => exact unobserved_pure ()
  | cons a as ih => exact (h a).bind fun _ => ih

end Action

/-! ### The writer -/

theorem Policy.unobserved_checkWrite (policy : Policy) (text : String) :
    Unobserved (policy.checkWrite text) (policy.checkWrite text) := by
  intro w hw
  cases hallowed : policy.allowsWrite w.cwd (.ofString text) with
  | true =>
    have hforget : policy.allowsWrite w.forget.cwd (.ofString text) = true := hallowed
    rw [run_checkWrite_of_allowed hallowed, run_checkWrite_of_allowed hforget]
    exact ⟨rfl, hw⟩
  | false =>
    have hforget : policy.allowsWrite w.forget.cwd (.ofString text) = false := hallowed
    rw [run_checkWrite_of_refused hallowed, run_checkWrite_of_refused hforget]
    exact ⟨rfl, hw.mono rfl rfl fun _ => id⟩

namespace Writer

/-- **Writing without a memory**: the directories on the way are made for each file. -/
def writeAfresh (policy : Policy) (path : Path) (text : String) (mark : Bool) : Action Unit := do
  policy.checkWrite path.text
  Action.change fun t cwd => t.makeDirs cwd path.parent
  Action.step fun t cwd => t.write cwd path (encode text mark)
  Action.modify fun w => { w with written := w.written ++ [path] }
  Action.note (.wrote path)

/-- **Seeing to a directory is making it**: one that was seen to before is there. -/
theorem unobserved_seeTo (dir : Path) :
    Unobserved (seeTo dir) (change fun t cwd => t.makeDirs cwd dir) := by
  intro w hw
  rw [seeTo, run_bind_of_ok (run_get w)]
  by_cases hseen : w.created.contains dir = true
  · have hthere := hw.created dir (List.contains_iff_mem.1 hseen)
    have hmake : w.forget.tree.makeDirs w.forget.cwd dir = (.ok (), w.forget.tree) :=
      FileTree.makeDirs_of_isDirectory hthere
    rw [if_pos hseen, run_change_of_ok hmake]
    exact ⟨rfl, hw⟩
  · rw [if_neg hseen]
    have hdirs := (FileTree.sameOutside_makeDirs hw.directory dir).directories
    rcases hmake : w.tree.makeDirs w.cwd dir with ⟨e | ⟨⟩, t⟩
    · have hforget : w.forget.tree.makeDirs w.forget.cwd dir = (.error e, t) := hmake
      rw [hmake] at hdirs
      rw [run_bind_of_error (run_change_of_error hmake), run_change_of_error hforget]
      exact ⟨rfl, hw.mono rfl rfl hdirs⟩
    · have hforget : w.forget.tree.makeDirs w.forget.cwd dir = (.ok (), t) := hmake
      rw [hmake] at hdirs
      rw [run_bind_of_ok (run_change_of_ok hmake), run_change_of_ok hforget, run_modify]
      have hold : Workspace.Trusted { w with tree := t } := hw.mono rfl rfl hdirs
      refine ⟨rfl, hold.directory, fun d hd => ?_⟩
      rcases List.mem_append.1 hd with hd | hd
      · exact hold.created d hd
      · rw [List.mem_singleton.1 hd]
        exact FileTree.isDirectory_of_makeDirs hw.directory hmake

/-- **Writing with and without a memory.** -/
theorem unobserved_writeMarked (policy : Policy) (path : Path) (text : String) (mark : Bool) :
    Unobserved (writeMarked policy path text mark) (writeAfresh policy path text mark) := by
  refine (policy.unobserved_checkWrite path.text).bind fun _ => ?_
  refine (unobserved_seeTo path.parent).bind fun _ => ?_
  refine (unobserved_step fun t u cwd q hcwd hwrite => ?_).bind fun _ => ?_
  · exact FileTree.directories_write hcwd hwrite
  · refine (unobserved_modify (f := fun w => { w with written := w.written ++ [path] })
      (fun _ => rfl) fun _ => ⟨rfl, rfl, rfl⟩).bind fun _ => ?_
    exact unobserved_note _

/-- **Removing** has nothing to do with the memory. -/
theorem unobserved_remove (policy : Policy) (path : String) :
    Unobserved (remove policy path) (remove policy path) := by
  refine (policy.unobserved_checkWrite path).bind fun _ => ?_
  refine (unobserved_note _).bind fun _ => ?_
  refine (unobserved_step fun t u cwd q _ hremove => ?_).bind fun _ => unobserved_note _
  exact FileTree.directories_remove hremove

theorem unobserved_removeAll (policy : Policy) (dir : Path) (names : List String) :
    Unobserved (removeAll policy dir names) (removeAll policy dir names) :=
  (Unobserved.forEach (fun name => unobserved_remove policy (dir.joinText name).text) names).bind
    fun _ => unobserved_note _

end Writer

end DenoPackager
