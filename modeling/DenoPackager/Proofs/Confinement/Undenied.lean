import DenoPackager.Emission
import DenoPackager.Proofs.Confinement.Plain
import DenoPackager.Proofs.Files.Removal

/-!
# Actions that are not denied to write

An action is never denied a write if it writes below a directory that may be written. All actions
of a build are told apart by two things that they have to leave as they are: the current directory,
which the paths of the policy are seen from, and what is known about the tree.

## Main definitions

* `WriteDenied`: results that are the denial of a write.
* `Action.Undenied`: actions that no write is denied in.

## Main results

* `Undenied.bind`, `Undenied.forEach`, `undenied_withTemporary`: one action after the other.
* `Writer.undenied_writeMarked`, `Writer.undenied_remove`: the writer, at paths that may be written.
* `Compiler.undenied_run`: a run of the compiler, whatever the compiler puts out.
* `Program.undenied_emit`: an emission into a directory that may be written.
-/

namespace DenoPackager

/-- **The denial of a write.** -/
def WriteDenied {α : Type} (r : Except Failure α) : Prop :=
  ∃ text, r = .error (.problem (.writeDenied text))

theorem not_writeDenied_ok {α : Type} (a : α) : ¬ WriteDenied (.ok a : Except Failure α) := by
  rintro ⟨text, h⟩
  simp at h

theorem not_writeDenied_fault {α : Type} (f : Fault) :
    ¬ WriteDenied (.error (.fault f) : Except Failure α) := by
  rintro ⟨text, h⟩
  simp at h

/-- A failure is a denial whatever was to be done. -/
theorem WriteDenied.of_error {α β : Type} {e : Failure}
    (h : WriteDenied (.error e : Except Failure α)) :
    WriteDenied (.error e : Except Failure β) := by
  obtain ⟨text, h⟩ := h
  exact ⟨text, congrArg _ (Except.error.inj h)⟩

/-- **A workspace in a directory**, whose tree has a property. -/
structure Workspace.Keeps (cwd : Path) (T : FileTree → Prop) (w : Workspace) : Prop where
  cwd_eq : w.cwd = cwd
  tree : T w.tree

namespace Action

variable {α β : Type} {cwd : Path} {T U : FileTree → Prop} {m : Action α}

/-- **No write is denied**: begun in the directory `cwd` on a tree with the property, the action
ends there on such a tree, and not with the denial of a write. -/
def Undenied (cwd : Path) (T : FileTree → Prop) (m : Action α) : Prop :=
  ∀ w : Workspace, w.Keeps cwd T → (m.run w).2.Keeps cwd T ∧ ¬ WriteDenied (m.run w).1

/-! ### Basic actions -/

theorem undenied_pure (a : α) : (pure a : Action α).Undenied cwd T :=
  fun _ hw => ⟨hw, not_writeDenied_ok a⟩

theorem undenied_get : get.Undenied cwd T :=
  fun w hw => ⟨hw, not_writeDenied_ok w⟩

theorem undenied_failure {e : Failure} (h : ¬ WriteDenied (.error e : Except Failure α)) :
    (failure e : Action α).Undenied cwd T :=
  fun _ hw => ⟨hw, h⟩

theorem undenied_fail {p : Problem} (h : ∀ text, p ≠ .writeDenied text) :
    (fail p : Action α).Undenied cwd T := by
  refine undenied_failure ?_
  rintro ⟨text, heq⟩
  simp only [Except.error.injEq, Failure.problem.injEq] at heq
  exact h text heq

theorem undenied_ofExcept {r : Except Failure α} (h : ¬ WriteDenied r) :
    (ofExcept r).Undenied cwd T := by
  cases r with
  | ok a => exact undenied_pure a
  | error e => exact undenied_failure h

/-- Remembering something about the work denies nothing. -/
theorem undenied_modify {f : Workspace → Workspace} (hcwd : ∀ w, (f w).cwd = w.cwd)
    (htree : ∀ w, (f w).tree = w.tree) : (modify f).Undenied cwd T :=
  fun w hw => ⟨⟨(hcwd w).trans hw.cwd_eq, (htree w).symm ▸ hw.tree⟩, not_writeDenied_ok ()⟩

theorem undenied_note (e : Event) : (note e).Undenied cwd T :=
  undenied_modify (fun _ => rfl) fun _ => rfl

theorem undenied_log (level : Level) (message : String) : (log level message).Undenied cwd T :=
  undenied_note _

theorem undenied_look (f : FileTree → Path → Except Fault α) : (look f).Undenied cwd T := by
  intro w hw
  rw [run, look]
  split
  · exact ⟨hw, not_writeDenied_ok _⟩
  · exact ⟨hw, not_writeDenied_fault _⟩

theorem undenied_change {f : FileTree → Path → Except Fault Unit × FileTree}
    (h : ∀ t, T t → T (f t cwd).2) : (change f).Undenied cwd T := by
  intro w hw
  have htree := h w.tree hw.tree
  rw [← hw.cwd_eq] at htree
  rw [run, change]
  split
  · rename_i t heq
    rw [heq] at htree
    exact ⟨⟨hw.cwd_eq, htree⟩, not_writeDenied_ok ()⟩
  · rename_i e t heq
    rw [heq] at htree
    exact ⟨⟨hw.cwd_eq, htree⟩, not_writeDenied_fault e⟩

theorem undenied_step {f : FileTree → Path → Except Fault FileTree}
    (h : ∀ t u, T t → f t cwd = .ok u → T u) : (step f).Undenied cwd T := by
  intro w hw
  rw [run, step]
  split
  · rename_i t heq
    rw [hw.cwd_eq] at heq
    exact ⟨⟨hw.cwd_eq, h w.tree t hw.tree heq⟩, not_writeDenied_ok ()⟩
  · exact ⟨hw, not_writeDenied_fault _⟩

/-! ### Actions made of actions -/

/-- **One action after the other**, where the second one is known to begin after the first. -/
theorem Undenied.bind_of_run {f : α → Action β} (hm : m.Undenied cwd T)
    (hf : ∀ a w v, w.Keeps cwd T → m.run w = (.ok a, v) → (f a).Undenied cwd T) :
    (m >>= f).Undenied cwd T := by
  intro w hw
  obtain ⟨hv, hdenied⟩ := hm w hw
  match hr : m.run w with
  | (.ok a, v) =>
    rw [hr] at hv
    rw [run_bind_of_ok hr]
    exact hf a w v hw hr v hv
  | (.error e, v) =>
    rw [hr] at hv hdenied
    rw [run_bind_of_error hr]
    exact ⟨hv, fun h => hdenied h.of_error⟩

/-- **One action after the other.** -/
theorem Undenied.bind {f : α → Action β} (hm : m.Undenied cwd T)
    (hf : ∀ a, (f a).Undenied cwd T) : (m >>= f).Undenied cwd T :=
  hm.bind_of_run fun a _ _ _ _ => hf a

theorem Undenied.onlyIf {m : Action Unit} (wanted : Bool) (h : m.Undenied cwd T) :
    (onlyIf wanted m).Undenied cwd T := by
  cases wanted with
  | true => exact h
  | false => exact undenied_pure ()

theorem Undenied.forEach {f : α → Action Unit} {as : List α}
    (h : ∀ a ∈ as, (f a).Undenied cwd T) : (forEach f as).Undenied cwd T := by
  induction as with
  | nil => exact undenied_pure ()
  | cons a as ih =>
    rw [List.forall_mem_cons] at h
    exact h.1.bind fun _ => ih h.2

theorem Undenied.mapEach {f : α → Action β} {as : List α} (h : ∀ a ∈ as, (f a).Undenied cwd T) :
    (mapEach f as).Undenied cwd T := by
  induction as with
  | nil => exact undenied_pure []
  | cons a as ih =>
    rw [List.forall_mem_cons] at h
    exact h.1.bind fun _ => (ih h.2).bind fun _ => undenied_pure _

/-- An attempt gives the failure that there was, which is no denial either. -/
theorem Undenied.attempt_bind {f : Except Failure α → Action β} (hm : m.Undenied cwd T)
    (hf : ∀ r, ¬ WriteDenied r → (f r).Undenied cwd T) : (attempt m >>= f).Undenied cwd T := by
  intro w hw
  obtain ⟨hv, hdenied⟩ := hm w hw
  match hr : m.run w with
  | (r, v) =>
    rw [hr] at hv hdenied
    rw [run_bind_of_ok (run_attempt hr)]
    exact hf r hdenied v hv

end Action

open DenoPackager.Action FileTree

variable {cwd : Path} {T : FileTree → Prop}

/-- **Temporary work** may rely on what is known about the tree with the directory in it. -/
theorem undenied_withTemporary {α : Type} {dir : Place} {start : String} {body : Path → Action α}
    (hT : Lasting T)
    (h : ∀ t, T t → ∃ U : FileTree → Prop,
      U (t.insert (temporaryPlace t dir start) .directory) ∧ (∀ u, U u → T u) ∧
        (body ⟨.single, temporaryPlace t dir start⟩).Undenied cwd U) :
    (withTemporary dir start body).Undenied cwd T := by
  intro w hw
  obtain ⟨U, hmade, hforget, hbody⟩ := h w.tree hw.tree
  obtain ⟨hend, hdenied⟩ :=
    hbody (w.withDirectory (temporaryPlace w.tree dir start)) ⟨hw.cwd_eq, hmade⟩
  exact ⟨⟨hend.cwd_eq, hT.erase (hforget _ hend.tree)⟩, hdenied⟩

theorem undenied_makeDirs (hT : Lasting T) (hcwd : PlainPlace cwd.parts) {p : Path}
    (hp : p.Proper) : (change fun t cwd => t.makeDirs cwd p).Undenied cwd T :=
  undenied_change fun _ ht => hT.makeDirs hcwd hp ht

theorem undenied_write (hT : Lasting T) (hcwd : PlainPlace cwd.parts) {p : Path} (hp : p.Proper)
    (content : ByteArray) : (step fun t cwd => t.write cwd p content).Undenied cwd T :=
  undenied_step fun _ _ ht hwrite => hT.write hcwd hp ht hwrite

/-! ### The policy and the writer -/

/-- **A write that is allowed** passes the check. -/
theorem Policy.run_checkWrite_of_allowed {policy : Policy} {text : String} {w : Workspace}
    (h : policy.allowsWrite w.cwd (.ofString text) = true) :
    (policy.checkWrite text).run w = (.ok (), w) := by
  rw [checkWrite, run_bind_of_ok (run_get w), if_pos h]
  rfl

/-- A write that is not allowed is denied, and logged. -/
theorem Policy.run_checkWrite_of_refused {policy : Policy} {text : String} {w : Workspace}
    (h : policy.allowsWrite w.cwd (.ofString text) = false) :
    (policy.checkWrite text).run w = (.error (.problem (.writeDenied text)), { w with
      events := w.events ++ [.logged .debug
        ("Denied write to " ++ ((Path.ofString text).absolute w.cwd).text)] }) := by
  rw [checkWrite, run_bind_of_ok (run_get w), if_neg (by simp [h])]
  rfl

theorem Policy.undenied_checkWrite {policy : Policy} {path : Path} (hp : path.Proper)
    (h : policy.allowsWrite cwd path = true) : (policy.checkWrite path.text).Undenied cwd T := by
  intro w hw
  rw [← hw.cwd_eq, ← Path.ofString_text hp] at h
  rw [Policy.run_checkWrite_of_allowed h]
  exact ⟨hw, not_writeDenied_ok ()⟩

theorem Policy.undenied_checkRun (policy : Policy) (command : String) :
    (policy.checkRun command).Undenied cwd T := by
  rw [checkRun]
  split
  · exact undenied_pure ()
  · exact (undenied_log _ _).bind fun _ => undenied_fail (by simp)

namespace Writer

variable {policy : Policy} {path : Path}

theorem undenied_seeTo (hT : Lasting T) (hcwd : PlainPlace cwd.parts) (hp : path.Proper) :
    (seeTo path).Undenied cwd T := by
  refine undenied_get.bind fun w => ?_
  split
  · exact undenied_pure ()
  · exact (undenied_makeDirs hT hcwd hp).bind fun _ => undenied_modify (fun _ => rfl) fun _ => rfl

/-- **Writing where it is allowed.** -/
theorem undenied_writeMarked (hT : Lasting T) (hcwd : PlainPlace cwd.parts) (hp : path.Proper)
    (h : policy.allowsWrite cwd path = true) (text : String) (mark : Bool) :
    (writeMarked policy path text mark).Undenied cwd T := by
  refine (Policy.undenied_checkWrite hp h).bind fun _ => ?_
  refine (undenied_seeTo hT hcwd hp.parent).bind fun _ => ?_
  refine (undenied_write hT hcwd hp _).bind fun _ => ?_
  exact Undenied.bind (undenied_modify (fun _ => rfl) fun _ => rfl) fun _ => undenied_note _

/-- **Removing where it is allowed.** -/
theorem undenied_remove (hT : Lasting T) (hp : path.Proper)
    (h : policy.allowsWrite cwd path = true) : (remove policy path.text).Undenied cwd T := by
  refine (Policy.undenied_checkWrite hp h).bind fun _ => (undenied_log _ _).bind fun _ => ?_
  exact (undenied_step fun _ _ ht hremove => hT.remove ht hremove).bind fun _ => undenied_note _

end Writer

/-! ### The compiler -/

namespace Compiler

variable {c : Compiler} {tools : Tools} {policy : Policy}

theorem undenied_stageFile (hT : Lasting T) (hcwd : PlainPlace cwd.parts) {staging : Path}
    (hstaging : staging.Proper) (root : Path) (path text : String) :
    (stageFile staging root path text).Undenied cwd T := by
  rw [stageFile]
  split
  · exact undenied_fail (by simp)
  · rename_i relative hbelow
    have hrelative : relative.Proper := by
      rw [Path.below?, Option.ite_none_right_eq_some, Option.some.injEq] at hbelow
      exact hbelow.2 ▸ fun c hc => Path.Proper.ofString path c (List.drop_subset _ _ hc)
    have htarget := hstaging.join hrelative
    refine (undenied_makeDirs hT hcwd htarget.parent).bind fun _ => ?_
    exact (undenied_write hT hcwd htarget _).bind fun _ => undenied_pure _

theorem undenied_stage (hT : Lasting T) (hcwd : PlainPlace cwd.parts) {staging : Path}
    (hstaging : staging.Proper) (options : CompilerOptions) (root : Path)
    (files : List (String × String)) (purpose : Purpose) :
    (c.stage tools policy options root files purpose staging).Undenied cwd T := by
  refine (Undenied.mapEach fun f _ => ?_).bind fun staged => ?_
  · exact undenied_stageFile hT hcwd hstaging root f.1 f.2
  · simp only
    split
    · exact undenied_fail (by simp)
    · refine (undenied_write hT hcwd (hstaging.child (by decide)) _).bind fun _ => ?_
      refine (policy.undenied_checkRun _).bind fun _ => (undenied_log _ _).bind fun _ => ?_
      exact undenied_get.bind fun _ => undenied_pure _

theorem undenied_leaveOutputs (hT : Lasting T) (hcwd : PlainPlace cwd.parts) {purpose : Purpose}
    (hpurpose : ∀ only dir, purpose = .emit only (some dir) → dir.Proper)
    (outputs : List (String × ByteArray)) : (leaveOutputs purpose outputs).Undenied cwd T := by
  match purpose, hpurpose with
  | .check, _ => exact undenied_pure ()
  | .emit only none, _ => exact undenied_pure ()
  | .emit only (some dir), hpurpose =>
    refine Undenied.forEach fun output _ => ?_
    have htarget : (dir.joinText output.1).Proper := (hpurpose only dir rfl).join (.ofString _)
    exact (undenied_makeDirs hT hcwd htarget.parent).bind fun _ => undenied_write hT hcwd htarget _

theorem undenied_execute (hT : Lasting T) (hcwd : PlainPlace cwd.parts) {purpose : Purpose}
    (hpurpose : ∀ only dir, purpose = .emit only (some dir) → dir.Proper) (run : CompilerRun) :
    (c.execute tools purpose run).Undenied cwd T := by
  refine undenied_get.bind fun w => (undenied_note _).bind fun _ => ?_
  split
  · exact undenied_fail (by simp)
  · exact undenied_fail (by simp)
  · exact (undenied_leaveOutputs hT hcwd hpurpose _).bind fun _ => undenied_pure _

theorem undenied_interpret (command : List String) (ending : Int × String × String)
    (staged : List (String × String)) : (interpret command ending staged).Undenied cwd T := by
  refine (undenied_look _).bind fun reading => ?_
  refine (Undenied.forEach fun line _ => undenied_log _ _).bind fun _ => ?_
  split
  · exact undenied_fail (by simp)
  · exact undenied_pure _

theorem proper_of_path {options : CompilerOptions} {setting : Setting} {path : Path}
    (h : options.path setting = .ok path) : path.Proper := by
  rw [CompilerOptions.path] at h
  split at h
  · exact Except.ok.inj h ▸ .ofString _
  · simp at h

theorem undenied_openRoot (hT : Lasting T) (hcwd : PlainPlace cwd.parts)
    (options : CompilerOptions) : (openRoot options).Undenied cwd T := by
  refine (undenied_look _).bind_of_run fun root w v _ hlook => ?_
  have hroot := proper_of_path (of_run_look_eq_ok hlook).1
  refine (undenied_makeDirs hT hcwd hroot.parent).bind fun _ => ?_
  exact (undenied_look _).bind fun _ => undenied_pure _

/-- The directory above the sources is a plain place. -/
theorem plain_of_run_openRoot {w v : Workspace} (hcwd : PlainPlace w.cwd.parts)
    {options : CompilerOptions} {root : Path} {dir : Place}
    (h : (openRoot options).run w = (.ok (root, dir), v)) : PlainPlace dir := by
  obtain ⟨hpath, hmake, _, hplace⟩ := Compiler.of_run_openRoot_eq_ok h
  rw [of_run_change_eq_ok hmake] at hplace
  exact plain_of_locate hcwd (proper_of_path hpath).parent hplace

/-- **A run of the compiler** is denied no write: what it puts somewhere does not go through the
writer. -/
theorem undenied_run (hT : Lasting T) (hcwd : PlainPlace cwd.parts) (options : CompilerOptions)
    (files : List (String × String)) {purpose : Purpose}
    (hpurpose : ∀ only dir, purpose = .emit only (some dir) → dir.Proper) :
    (c.run tools policy options files purpose).Undenied cwd T := by
  refine (undenied_openRoot hT hcwd options).bind_of_run fun opened w v hw hopened => ?_
  obtain ⟨root, dir⟩ := opened
  have hdir := plain_of_run_openRoot (hw.cwd_eq ▸ hcwd) hopened
  refine (undenied_withTemporary hT fun t ht => ?_).bind fun ended => undenied_interpret _ _ _
  have hplace : PlainPlace (temporaryPlace t dir ".dnt-staging-") :=
    hdir.append (plain_freshName _ (by decide) (by decide))
  have hstaging : (⟨.single, temporaryPlace t dir ".dnt-staging-"⟩ : Path).Proper :=
    fun d hd => (hplace d hd).1
  refine ⟨T, hT.insert ht hplace, fun _ h => h, ?_⟩
  refine (undenied_stage hT hcwd hstaging _ _ _ _).bind fun staged => ?_
  exact (undenied_execute hT hcwd hpurpose _).bind fun _ => undenied_pure _

end Compiler

/-! ### Emission -/

namespace Program

variable {policy : Policy} {outDir scratch : Path} {place : Place}

/-- **Handing on a file** with a plain name into a directory that may be written. -/
theorem undenied_relay (hT : Lasting T) (hcwd : PlainPlace cwd.parts) (hout : outDir.Proper)
    (hallowed : policy.allowsWrite cwd outDir = true) (hplace : PlainPlace place) :
    (relay scratch outDir (Pass.writeEmitted policy) place).Undenied cwd T := by
  have htarget : (outDir.join ⟨.none, place⟩).Proper := hout.join fun c hc => (hplace c hc).1
  refine (undenied_look _).bind fun content => ?_
  refine Undenied.bind ?_ fun _ => undenied_pure _
  rw [Pass.writeEmitted, Path.ofString_text htarget]
  exact Writer.undenied_writeMarked hT hcwd htarget
    (Policy.allowsWrite_below hplace.up_not_mem hallowed) _ _

/-- **An emission** into a directory that may be written. All that is handed on stands in the
scratch directory, which was empty when the compiler began. -/
theorem undenied_emit (p : Program) (c : Compiler) (tools : Tools) (compilerPolicy : Policy)
    (declarationsOnly : Bool) (transforms : List SourceTransform)
    (hcwd : PlainPlace cwd.parts) (hout : outDir.Proper)
    (hpath : p.options.path .outDir = .ok outDir)
    (hallowed : policy.allowsWrite cwd outDir = true) :
    (p.emit c tools compilerPolicy declarationsOnly transforms
      (Pass.writeEmitted policy)).Undenied cwd fun _ => True := by
  refine undenied_withTemporary lasting_true fun t _ => ?_
  have hscratch : (⟨.single, temporaryPlace t temporaryRoot "dnt-emit-"⟩ : Path).Proper :=
    fun d hd => ((PlainPlace.append (by decide) (plain_freshName _ (by decide) (by decide))) d hd).1
  have hT := lasting_plainBelow (temporaryPlace t temporaryRoot "dnt-emit-")
  refine ⟨_, plainBelow_insert (temporaryPlace_free t _ _), fun _ _ => trivial, ?_⟩
  refine Undenied.bind ?_ fun diagnostics => ?_
  · refine Compiler.undenied_run hT hcwd _ _ fun only dir heq => ?_
    rw [Purpose.emit.injEq, Option.some.injEq] at heq
    exact heq.2 ▸ hscratch
  refine (undenied_look _).bind_of_run fun found w v _ hlook => ?_
  obtain rfl : outDir = found := Except.ok.inj (hpath.symm.trans (of_run_look_eq_ok hlook).1)
  refine undenied_get.bind_of_run fun seen x y hx hget => ?_
  rw [run_get, Prod.mk.injEq, Except.ok.injEq] at hget
  obtain ⟨rfl, -⟩ := hget
  refine (Undenied.mapEach fun place hmem => ?_).bind fun files => undenied_pure _
  obtain ⟨content, hfile⟩ := mem_filesBelow.1 hmem
  exact undenied_relay hT hcwd hout hallowed (hx.tree place (by simp [hfile]))

end Program

end DenoPackager
