import DenoPackager.Proofs.Relay.Texts
import DenoPackager.Proofs.Trace.Within

/-!
# The trace of a run of the compiler

A run of the compiler makes the directory above the source root, with everything on the way to it,
and puts a staging directory there. The staging directory goes away with all that is in it, however
the run ends: the compiler may be missing, it may not end in time, it may end badly, it may not be
allowed to start, and a source may not be stageable next to another one. So a run that checks leaves
no trace but the way to the project. An emission puts its outputs into a scratch directory that goes
away too; what is left of it is what became of the files that were handed on.

This holds of sources without a double dot below the source root. With one, a source is staged
outside of the staging directory and stays there.

## Main definitions

* `CompilerOptions.wayToProject`: the places that may be made on the way to the project.
* `Workspace.MadeWay`: nothing but the way to the project was made, outside of some places.
* `Program.Plain`: programs whose sources have no double dot below the source root.
* `Tools.KeepsBelow`: compilers that put nothing outside of the directory that they emit to.

## Main results

* `Compiler.madeWay_run`: a run of the compiler, however it ends.
* `Program.leaves_no_trace`: checking and emitting, however they end.
-/

namespace DenoPackager

open DenoPackager.Action
open DenoPackager.Path (follow)

/-- **The way to the project**: the places on the way to the directory above the source root. -/
def CompilerOptions.wayToProject (options : CompilerOptions) (cwd : Path) : Set Place :=
  {q | ∃ root, options.path .rootDir = .ok root ∧
    ∃ pre, pre <+: root.parent.parts ∧ q = follow (root.start cwd) pre}

/-- **Nothing but the way to the project was made**, outside of some places. -/
structure Workspace.MadeWay (s : Set Place) (options : CompilerOptions) (w v : Workspace) :
    Prop where
  cwd : v.cwd = w.cwd
  outside : ∀ q ∉ s, v.tree.get? q = w.tree.get? q ∨
    (w.tree.get? q = none ∧ v.tree.get? q = some .directory ∧ q ∈ options.wayToProject w.cwd)

variable {w v u : Workspace} {s : Set Place} {options : CompilerOptions} {place dir : Place}
  {tools : Tools} {policy : Policy}

namespace Workspace

theorem MadeWay.then_within (h : w.MadeWay s options v) (h' : v.Within s u) :
    w.MadeWay s options u where
  cwd := h'.cwd.trans h.cwd
  outside q hq := by
    rw [h'.outside q hq]
    exact h.outside q hq

theorem Within.then_madeWay (h : w.Within s v) (h' : v.MadeWay s options u) :
    w.MadeWay s options u where
  cwd := h'.cwd.trans h.cwd
  outside q hq := by
    rw [← h.outside q hq, ← h.cwd]
    exact h'.outside q hq

theorem MadeWay.mono (h : w.MadeWay s options v) {s' : Set Place} (hs : s ⊆ s') :
    w.MadeWay s' options v :=
  { h with outside := fun q hq => h.outside q fun hmem => hq (hs hmem) }

theorem Within.madeWay (h : w.Within s v) : w.MadeWay s options v :=
  ⟨h.cwd, fun q hq => .inl (h.outside q hq)⟩

end Workspace

/-- Temporary work outside of the project leaves nothing but the way to the project. -/
theorem madeWay_withTemporary {start : String} (hdir : w.tree.get? dir = some .directory)
    (h : (w.withDirectory (temporaryPlace w.tree dir start)).MadeWay
      ({q | temporaryPlace w.tree dir start <+: q} ∪ s) options v) :
    w.MadeWay s options { v with tree := v.tree.erase (temporaryPlace w.tree dir start) } := by
  have hall := ((within_withDirectory start hdir).mono Set.subset_union_left).then_madeWay h
  refine ⟨hall.cwd, fun q hq => ?_⟩
  rw [get?_erase_temporaryPlace]
  split
  · exact .inl rfl
  · rename_i hpre
    exact hall.outside q (by rintro (hbelow | hmem) <;> contradiction)

/-- **A compiler that puts nothing outside of the directory that it emits to.** -/
def Tools.KeepsBelow (tools : Tools) : Prop :=
  ∀ w run code stdout stderr outputs,
    tools.compiler w run = .exits code stdout stderr outputs → ∀ o ∈ outputs, IsDown o.1

/-- **A run that fills some places only**: if it emits, it does so to a directory that is there, with
a compiler that keeps to it. -/
def Purpose.Fills (tools : Tools) (s : Set Place) (w : Workspace) (purpose : Purpose) : Prop :=
  ∀ only path, purpose = .emit only (some path) → tools.KeepsBelow ∧
    ∃ place, path = ⟨.single, place⟩ ∧ w.tree.get? place = some .directory ∧
      Path.up ∉ place ∧ ∀ q, place <+: q → q ∈ s

theorem Purpose.fills_check (tools : Tools) (s : Set Place) (w : Workspace) :
    Purpose.check.Fills tools s w := by
  intro only path h
  simp at h

theorem Purpose.Fills.of_within {purpose : Purpose} (h : purpose.Fills tools s w) {s' : Set Place}
    (hv : w.Within s' v) {s'' : Set Place} (hs : s ⊆ s'') : purpose.Fills tools s'' v := by
  intro only path heq
  obtain ⟨htools, place, rfl, hdir, hup, hplace⟩ := h only path heq
  exact ⟨htools, place, rfl, hv.directories _ hdir, hup, fun q hq => hs (hplace q hq)⟩

/-- The way down from a directory is relative. -/
theorem Path.root_of_below? {p dir q : Path} (h : p.below? dir = some q) : q.root = .none := by
  rw [Path.below?, Option.ite_none_right_eq_some, Option.some.injEq] at h
  rw [← h.2]

theorem Policy.within_checkRun (policy : Policy) (command : String) :
    (policy.checkRun command).Within s w := by
  rw [Policy.checkRun]
  split
  · exact within_pure ()
  · exact (within_log _ _).bind fun _ _ _ _ => within_fail _

namespace Compiler

variable {c : Compiler} {root : Path} {files : List (String × String)} {purpose : Purpose}

/-! ### The parts of a run -/

/-- Opening the source root makes directories, and nothing else becomes of the workspace. -/
theorem run_openRoot (hroot : options.path .rootDir = .ok root) (w : Workspace) :
    ((openRoot options).run w).2 =
      ((change fun t cwd => t.makeDirs cwd root.parent).run w).2 := by
  have hlook : (look fun _ _ => options.path .rootDir).run w = (.ok root, w) :=
    run_look_of_ok hroot
  rw [openRoot, run_bind_of_ok hlook]
  refine run_bind_snd fun _ v _ => ?_
  exact (run_bind_snd fun _ _ _ => rfl).trans (run_look_snd _ v)

/-- **Opening the source root** makes the way to the project and nothing else. -/
theorem madeWay_openRoot (options : CompilerOptions) (hw : w.Grounded) :
    w.MadeWay ∅ options ((openRoot options).run w).2 ∧
      w.Within Set.univ ((openRoot options).run w).2 := by
  match hroot : options.path .rootDir with
  | .error e =>
    have hlook : (look fun _ _ => options.path .rootDir).run w = (.error (.fault e), w) :=
      run_look_of_error hroot
    rw [openRoot, run_bind_of_error hlook]
    exact ⟨(Workspace.Within.refl _ _).madeWay, .refl _ _⟩
  | .ok root =>
    obtain ⟨hmade, hview⟩ := run_makeDirs hw root.parent
    have hwithin : (change fun t cwd => t.makeDirs cwd root.parent).Within Set.univ w :=
      within_makeDirs hw fun q _ => Set.mem_univ q
    rw [run_openRoot hroot]
    refine ⟨⟨hwithin.cwd, fun q _ => ?_⟩, hwithin⟩
    rw [hmade]
    refine (hview q).imp_right fun ⟨hnone, hdirectory, hmem⟩ => ⟨hnone, hdirectory, root, hroot, ?_⟩
    exact FileTree.exists_of_mem_missingOn hmem

/-- **Where a run takes place**: in a directory that is there, with no double dot in its place. -/
theorem directory_of_run_openRoot (hw : w.Grounded) {dir : Place}
    (h : (openRoot options).run w = (.ok (root, dir), v)) :
    options.path .rootDir = .ok root ∧ v.tree.get? dir = some .directory ∧ Path.up ∉ dir := by
  have hcwd : PlainPlace w.cwd.parts := fun c hc =>
    ⟨hw.proper c hc, fun heq => hw.up_not_mem (heq ▸ hc)⟩
  obtain ⟨hroot, hmake, _, hplace⟩ := of_run_openRoot_eq_ok h
  refine ⟨hroot, ?_, (plain_of_run_openRoot hcwd h).up_not_mem⟩
  match hdirs : w.tree.makeDirs w.cwd root.parent with
  | (.error e, t) =>
    rw [run_change_of_error hdirs] at hmake
    simp at hmake
  | (.ok (), t) =>
    rw [run_change_of_ok hdirs, Prod.mk.injEq] at hmake
    obtain ⟨-, rfl⟩ := hmake
    rw [FileTree.follow_of_locate hplace]
    exact (FileTree.get?_of_makeDirs hw.directory hdirs).1 _ (List.prefix_refl _)

/-- **Staging a source** changes nothing outside of the staging directory. -/
theorem within_stageFile (hw : w.Grounded) (hdir : w.tree.get? place = some .directory)
    (hplace : Path.up ∉ place) {path text : String} (hplain : Path.up ∉ sourceParts root path) :
    (stageFile ⟨.single, place⟩ root path text).Within {q | place <+: q} w := by
  rw [stageFile]
  rw [sourceParts] at hplain
  cases hbelow : (Path.ofString path).below? root with
  | none => exact within_fail _
  | some relative =>
    rw [hbelow, Option.map_some, Option.getD_some] at hplain
    have htarget : (⟨.single, place⟩ : Path).join relative = ⟨.single, place ++ relative.parts⟩ := by
      rw [Path.join, Path.root_of_below? hbelow]
    simp only [htarget]
    refine (within_makeDirs_below hw hdir hplace hplain).bind fun _ v _ hv => ?_
    exact (within_write_below (hv.grounded hw) hplace hplain).bind fun _ _ _ _ => within_pure _

/-- **Staging a run** changes nothing outside of the staging directory. -/
theorem within_stage (hw : w.Grounded) (hdir : w.tree.get? place = some .directory)
    (hplace : Path.up ∉ place) (hplain : ∀ f ∈ files, Path.up ∉ sourceParts root f.1) :
    (c.stage tools policy options root files purpose ⟨.single, place⟩).Within
      {q | place <+: q} w := by
  refine Within.bind (Within.mapEach fun f hf v hv => ?_) fun staged v _ hv => ?_
  · exact within_stageFile (hv.grounded hw) (hv.directories _ hdir) hplace (hplain f hf)
  · dsimp only
    split
    · exact within_fail _
    · refine (within_write_below (hv.grounded hw) hplace (by decide)).bind fun _ _ _ _ => ?_
      refine (policy.within_checkRun _).bind fun _ _ _ _ => (within_log _ _).bind fun _ _ _ _ => ?_
      exact within_get.bind fun _ _ _ _ => within_pure _

/-- **What the compiler puts out** goes below the directory that it emits to. -/
theorem within_leaveOutputs (hw : w.Grounded) (hpurpose : purpose.Fills tools s w)
    {outputs : List (String × ByteArray)} (houtputs : tools.KeepsBelow → ∀ o ∈ outputs, IsDown o.1) :
    (leaveOutputs purpose outputs).Within s w := by
  cases purpose with
  | check => exact within_pure ()
  | emit only scratch =>
    cases scratch with
    | none => exact within_pure ()
    | some scratch =>
      obtain ⟨htools, place, rfl, hdir, hplace, hs⟩ := hpurpose only scratch rfl
      refine Within.forEach fun o ho v hv => ?_
      have hdown := houtputs htools o ho
      rw [hdown.joinText]
      have hput := within_makeDirs_below (hv.grounded hw) (hv.directories _ hdir) hplace
        hdown.up_not_mem
      refine (hput.mono hs).bind fun _ u _ hu => ?_
      exact (within_write_below ((hv.trans hu).grounded hw) hplace hdown.up_not_mem).mono hs

/-- **Executing** the compiler, whatever becomes of it. -/
theorem within_execute (hw : w.Grounded) (hpurpose : purpose.Fills tools s w)
    (run : CompilerRun) : (c.execute tools purpose run).Within s w := by
  refine within_get.bind fun x v hget _ => ?_
  rw [run_get, Prod.mk.injEq, Except.ok.injEq] at hget
  obtain ⟨rfl, rfl⟩ := hget
  refine (within_note _).bind fun _ v _ hv => ?_
  split
  · exact within_fail _
  · exact within_fail _
  · rename_i code stdout stderr outputs hexits
    refine (within_leaveOutputs (hv.grounded hw) (hpurpose.of_within hv subset_rfl) ?_).bind
      fun _ _ _ _ => within_pure _
    exact fun htools => htools _ _ _ _ _ _ hexits

theorem within_interpret (command : List String) (ending : Int × String × String)
    (staged : List (String × String)) : (interpret command ending staged).Within s w := by
  refine (within_look _).bind fun reading _ _ _ => ?_
  refine (Within.forEach fun _ _ _ _ => within_log _ _).bind fun _ _ _ _ => ?_
  split
  · exact within_fail _
  · exact within_pure _

/-! ### A whole run -/

/-- **Work in a staging directory** of the project, below the directory above the source root. -/
def inStaging {α : Type} (options : CompilerOptions) (body : Path → Path → Action α) :
    Action α := do
  let (root, dir) ← openRoot options
  withTemporary dir ".dnt-staging-" (body root)

/-- **A run** is work in a staging directory, and reading what the compiler printed. -/
theorem run_eq_inStaging :
    c.run tools policy options files purpose =
      inStaging options (fun root => c.stagedRun tools policy options root files purpose) >>=
        fun ended => interpret ended.1 ended.2.1 ended.2.2 := by
  rw [Compiler.run, inStaging, bind_assoc]

/-- **Work in a staging directory makes the way to the project**, and changes nothing else if all
that it changes is in the staging directory, or where it may be changed. -/
theorem madeWay_inStaging {α : Type} {body : Path → Path → Action α} (hw : w.Grounded)
    (h : ∀ root place v, options.path .rootDir = .ok root → w.Within Set.univ v →
      v.tree.get? place = some .directory → Path.up ∉ place →
        (body root ⟨.single, place⟩).Within ({q | place <+: q} ∪ s) v) :
    w.MadeWay s options ((inStaging options body).run w).2 := by
  obtain ⟨hway, hkept⟩ := madeWay_openRoot options hw
  have hsub := Set.empty_subset s
  match hopen : (openRoot options).run w with
  | (.error e, v) =>
    rw [hopen] at hway
    rw [inStaging, run_bind_of_error hopen]
    exact hway.mono hsub
  | (.ok (root, dir), v) =>
    rw [hopen] at hway hkept
    obtain ⟨hroot, hdir, hup⟩ := directory_of_run_openRoot hw hopen
    rw [inStaging, run_bind_of_ok hopen]
    refine (hway.mono hsub).then_within (within_withTemporary hdir (h root _ _ hroot ?_ ?_ ?_))
    · exact hkept.trans ((within_withDirectory _ hdir).mono (Set.subset_univ _))
    · exact get?_withDirectory_temporaryPlace _ _ _
    · exact up_not_mem_temporaryPlace hup (by decide)

/-- **A run of the compiler makes the way to the project**, and changes nothing else but what it
emits, however it ends. -/
theorem madeWay_run (hw : w.Grounded)
    (hplain : ∀ root, options.path .rootDir = .ok root → ∀ f ∈ files, Path.up ∉ sourceParts root f.1)
    (hpurpose : purpose.Fills tools s w) :
    w.MadeWay s options ((c.run tools policy options files purpose).run w).2 := by
  have hwork : w.MadeWay s options ((inStaging options
      (fun root => c.stagedRun tools policy options root files purpose)).run w).2 := by
    refine madeWay_inStaging hw fun root place v hroot hv hdir hplace => ?_
    have hstage : (c.stage tools policy options root files purpose ⟨.single, place⟩).Within
        {q | place <+: q} v :=
      within_stage (hv.grounded hw) hdir hplace (hplain root hroot)
    refine Within.bind (hstage.mono Set.subset_union_left) fun _ x _ hx => ?_
    refine Within.bind ?_ fun _ _ _ _ => within_pure _
    refine within_execute (hx.grounded (hv.grounded hw)) ?_ _
    exact (hpurpose.of_within hv subset_rfl).of_within hx Set.subset_union_right
  rw [run_eq_inStaging]
  match hrun : (inStaging options
      (fun root => c.stagedRun tools policy options root files purpose)).run w with
  | (.error e, v) =>
    rw [hrun] at hwork
    rwa [run_bind_of_error hrun]
  | (.ok ended, v) =>
    rw [hrun] at hwork
    rw [run_bind_of_ok hrun]
    exact hwork.then_within (within_interpret _ _ _)

end Compiler

/-! ### Checking and emitting -/

namespace Program

/-- **Programs whose sources have no double dot** below the source root. -/
def Plain (p : Program) : Prop :=
  ∀ root, p.options.path .rootDir = .ok root → ∀ f ∈ p.files, Path.up ∉ sourceParts root f.1

/-- Transforming sources does not move them. -/
theorem Plain.prepared {p : Program} (h : p.Plain) (transforms : List SourceTransform) :
    ∀ root, p.options.path .rootDir = .ok root →
      ∀ f ∈ p.prepared transforms, Path.up ∉ sourceParts root f.1 := by
  intro root hroot f hf
  obtain ⟨g, hg, rfl⟩ := List.mem_map.1 hf
  exact h root hroot g hg

/-- **Files that are there to be handed on**: each stands for a file below the scratch directory. -/
def Emitted (options : CompilerOptions) (scratch : Place) (u : Workspace) (file : EmittedFile) :
    Prop :=
  ∃ outDir, options.path .outDir = .ok outDir ∧
    ∃ q ∈ u.tree.filesBelow scratch, file.path = (outDir.join ⟨.none, q⟩).text

/-- **What is left of an emission**: the way to the project was made, emitted files were handed on,
and then the scratch directory went away with all that was below it. -/
def LeftByEmission (options : CompilerOptions) (scratch : Place) (write : EmittedFile → Action Unit)
    (w v : Workspace) : Prop :=
  ∃ u handed, w.MadeWay {q | scratch <+: q} options u ∧
    (∀ file ∈ handed, Emitted options scratch u file) ∧
    v = { ((forEach write handed).run u).2 with
      tree := ((forEach write handed).run u).2.tree.erase scratch }

section Relay

variable (scratch outDir : Path) (write : EmittedFile → Action Unit)

/-- **Handing on one file**: it cannot be read, or it is handed on. -/
theorem run_relay_cases (q : Place) (u : Workspace) :
    (∃ e, (relay scratch outDir write q).run u = (.error e, u)) ∨
      ∃ file, file.path = (outDir.join ⟨.none, q⟩).text ∧
        (relay scratch outDir write q).run u = (write file >>= fun _ => pure file).run u := by
  match hread : u.tree.readText u.cwd (scratch.join ⟨.none, q⟩) with
  | .error e =>
    have hlook : (look fun t cwd => t.readText cwd (scratch.join ⟨.none, q⟩)).run u =
        (.error (.fault e), u) := run_look_of_error hread
    exact .inl ⟨_, run_bind_of_error hlook⟩
  | .ok content =>
    have hlook : (look fun t cwd => t.readText cwd (scratch.join ⟨.none, q⟩)).run u =
        (.ok content, u) := run_look_of_ok hread
    exact .inr ⟨_, rfl, run_bind_of_ok hlook⟩

/-- **Handing on files** does what is done with them, up to the first one that fails. -/
theorem run_relays_snd (qs : List Place) (u : Workspace) :
    ∃ handed, (∀ file ∈ handed, ∃ q ∈ qs, file.path = (outDir.join ⟨.none, q⟩).text) ∧
      ((mapEach (relay scratch outDir write) qs).run u).2 =
        ((forEach write handed).run u).2 := by
  induction qs generalizing u with
  | nil => exact ⟨[], by simp, rfl⟩
  | cons q qs ih =>
    rcases run_relay_cases scratch outDir write q u with
      ⟨e, hrelay⟩ | ⟨file, hpath, hrelay⟩
    · refine ⟨[], by simp, ?_⟩
      rw [mapEach, run_bind_of_error hrelay]
      rfl
    · rcases hwrite : (write file).run u with ⟨e | ⟨⟩, v⟩
      · rw [run_bind_of_error hwrite] at hrelay
        refine ⟨[file], by simpa using .inl hpath, ?_⟩
        rw [mapEach, run_bind_of_error hrelay, forEach, run_bind_of_error hwrite]
      · rw [run_bind_of_ok hwrite, run_pure] at hrelay
        obtain ⟨handed, hpaths, hhanded⟩ := ih v
        refine ⟨file :: handed, ?_, ?_⟩
        · rw [List.forall_mem_cons]
          refine ⟨⟨q, List.mem_cons_self, hpath⟩, fun f hf => ?_⟩
          exact (hpaths f hf).imp fun _ h => ⟨List.mem_cons_of_mem q h.1, h.2⟩
        · rw [mapEach, run_bind_of_ok hrelay, run_bind_snd fun _ _ _ => rfl, hhanded, forEach,
            run_bind_of_ok hwrite]

end Relay

/-- **An emission** runs the compiler and hands on files, if it gets that far. -/
theorem run_emitFrom_snd {p : Program} {c : Compiler} {declarationsOnly : Bool}
    {transforms : List SourceTransform} {scratch : Place} (write : EmittedFile → Action Unit)
    {w u : Workspace} {r : Except Failure (List Diagnostic)}
    (hrun : (c.run tools policy p.options (p.prepared transforms)
      (.emit declarationsOnly (some ⟨.single, scratch⟩))).run w = (r, u)) :
    ∃ handed, (∀ file ∈ handed, Emitted p.options scratch u file) ∧
      ((p.emitFrom c tools policy declarationsOnly transforms write ⟨.single, scratch⟩).run w).2 =
        ((forEach write handed).run u).2 := by
  cases r with
  | error e =>
    rw [emitFrom, run_bind_of_error hrun]
    exact ⟨[], by simp, rfl⟩
  | ok ds =>
    rw [emitFrom, run_bind_of_ok hrun]
    rcases hlook : (look fun _ _ => p.options.path .outDir).run u with ⟨e | outDir, x⟩
    · obtain rfl : x = u := by rw [← run_look_snd (fun _ _ => p.options.path .outDir) u, hlook]
      rw [run_bind_of_error hlook]
      exact ⟨[], by simp, rfl⟩
    · obtain ⟨hout, rfl⟩ := of_run_look_eq_ok hlook
      rw [run_bind_of_ok hlook, run_bind_of_ok (run_get x), run_bind_snd fun _ _ _ => rfl]
      obtain ⟨handed, hpaths, hhanded⟩ :=
        run_relays_snd ⟨.single, scratch⟩ outDir write (x.tree.filesBelow scratch) x
      exact ⟨handed, fun file hfile => ⟨outDir, hout, hpaths file hfile⟩, hhanded⟩

/-- **A compiler run leaves no trace**, however it ends. After a check, nothing has changed but that
the way to the project may have been made; after an emission, nothing but that and what became of
the files that were handed on. The staging directory and the scratch directory are gone. -/
theorem leaves_no_trace (p : Program) (c : Compiler) (tools : Tools) (policy : Policy)
    (hw : w.Grounded) (hplain : p.Plain) :
    w.MadeWay ∅ p.options ((p.check c tools policy).run w).2 ∧
      (tools.KeepsBelow → w.tree.get? temporaryRoot = some .directory →
        ∀ declarationsOnly transforms write,
          LeftByEmission p.options (temporaryPlace w.tree temporaryRoot "dnt-emit-") write w
            ((p.emit c tools policy declarationsOnly transforms write).run w).2) := by
  refine ⟨Compiler.madeWay_run hw hplain (Purpose.fills_check tools ∅ w), ?_⟩
  intro htools htmp declarationsOnly transforms write
  have hbegin := within_withDirectory "dnt-emit-" htmp
  rcases hrun : (c.run tools policy p.options (p.prepared transforms) (.emit declarationsOnly
      (some ⟨.single, temporaryPlace w.tree temporaryRoot "dnt-emit-"⟩))).run
        (w.withDirectory (temporaryPlace w.tree temporaryRoot "dnt-emit-")) with ⟨r, u⟩
  have hway : (w.withDirectory (temporaryPlace w.tree temporaryRoot "dnt-emit-")).MadeWay
      {q | temporaryPlace w.tree temporaryRoot "dnt-emit-" <+: q} p.options (r, u).2 := by
    rw [← hrun]
    refine Compiler.madeWay_run (hbegin.grounded hw) (hplain.prepared transforms) ?_
    rintro only path ⟨⟩
    exact ⟨htools, _, rfl, get?_withDirectory_temporaryPlace _ _ _,
      up_not_mem_temporaryPlace (by decide) (by decide), fun q hq => hq⟩
  obtain ⟨handed, hpaths, hhanded⟩ := run_emitFrom_snd write hrun
  refine ⟨u, handed, hbegin.then_madeWay hway, hpaths, ?_⟩
  rw [← hhanded]
  rfl

/-- An empty directory next to the one for temporary directories. -/
def bareWorkspace : Workspace :=
  .fresh (.ofString "/p") ((FileTree.empty.insert ["p"] .directory).insert ["tmp"] .directory)

/-- A program with a source that stands where a directory is needed for another one. -/
def blockedProgram : Program :=
  ⟨.base (.ofString "npm") false none, [("npm/src/a", "1;\n"), ("npm/src/a/mod.ts", "2;\n")]⟩

theorem leaves_no_trace_blocked :
    bareWorkspace.MadeWay ∅ blockedProgram.options
        ((blockedProgram.check .standard returnTools .unrestricted).run bareWorkspace).2 ∧
      LeftByEmission blockedProgram.options ["tmp", "dnt-emit-X"] (Pass.writeEmitted .unrestricted)
        bareWorkspace ((blockedProgram.emit .standard returnTools .unrestricted false []
          (Pass.writeEmitted .unrestricted)).run bareWorkspace).2 := by
  have hw : bareWorkspace.Grounded := ⟨.ofString "/p", by decide, by decide +kernel⟩
  have hplain : blockedProgram.Plain := by
    intro root hroot
    obtain rfl : Path.ofString "npm/src" = root := Except.ok.inj hroot
    decide +kernel
  have htools : returnTools.KeepsBelow := by
    intro _ _ _ _ _ _ h o ho
    cases h
    obtain rfl := List.mem_singleton.1 ho
    exact ⟨by decide, by decide, by decide⟩
  obtain ⟨hcheck, hemit⟩ :=
    leaves_no_trace blockedProgram .standard returnTools .unrestricted hw hplain
  exact ⟨hcheck, hemit htools (by decide +kernel) false [] (Pass.writeEmitted .unrestricted)⟩

end Program

end DenoPackager
