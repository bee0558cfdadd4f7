import DenoPackager.Proofs.Exit.Compiler
import DenoPackager.Proofs.Trace.Compiler

/-!
# Sources that are refused

A source is staged at its path below the source root, and refused if its path does not start with
the root. Paths are compared as they are written, so a source that lies outside once its dots are
resolved is refused if there is no double dot below the root in its path. Then nothing is left of
the run but the way to the project, and the compiler is not started.

A path that starts with the root and leaves it by double dots is not refused. It is walked as it is
written from the staging directory, and the source is staged outside of it.

## Main definitions

* `LiesOutside`: sources that lie outside once dots are resolved.
* `Compiler.stageOnly`: staging sources in the project, and nothing else.
* `Compiler.Refused`: runs that were refused.

## Main results

* `Compiler.run_of_outside`: a run is refused at the first source whose path does not start with the
  source root.
* `Compiler.not_refused`: no run is refused otherwise.
* `Program.outside_refused`: checking and emitting with a source that lies outside.
-/

namespace DenoPackager

open DenoPackager.Action

variable {w v : Workspace} {options : CompilerOptions} {root : Path} {tools : Tools}
  {policy : Policy}

/-- **A source that lies outside** of the source root, once dots are resolved. -/
def LiesOutside (root cwd : Path) (path : String) : Prop :=
  ((Path.ofString path).absolute cwd).isWithin (root.absolute cwd) = false

instance (root cwd : Path) (path : String) : Decidable (LiesOutside root cwd path) :=
  inferInstanceAs (Decidable (_ = false))

/-- **Without a double dot below the root**, a source that lies outside does not start with it. -/
theorem below?_of_liesOutside {cwd : Path} {path : String} (h : LiesOutside root cwd path)
    (hplain : Path.up ∉ sourceParts root path) : (Path.ofString path).below? root = none := by
  cases hbelow : (Path.ofString path).below? root with
  | none => rfl
  | some relative =>
    rw [sourceParts, hbelow, Option.map_some, Option.getD_some] at hplain
    have hpath : Path.ofString path = { root with parts := root.parts ++ relative.parts } := by
      rw [← Path.join_below? hbelow, Path.join, Path.root_of_below? hbelow]
    have hpre := List.prefix_append (root.absolute cwd).parts relative.parts
    rw [LiesOutside, hpath, Path.absolute_append hplain, Path.isWithin,
      List.isPrefixOf_iff_prefix.2 hpre] at h
    simp at h

namespace Action

variable {α β : Type}

/-- What fails does not go on. -/
theorem fail_bind (p : Problem) (f : α → Action β) : (fail p : Action α) >>= f = fail p := rfl

/-- Temporary work that is followed by a failure may as well fail itself. -/
theorem withTemporary_bind_fail {dir : Place} {start : String} {body : Path → Action α}
    (p : Problem) :
    withTemporary dir start (fun place => body place >>= fun _ => (fail p : Action β)) =
      withTemporary dir start body >>= fun _ => fail p := by
  funext w
  change (withTemporary dir start _).run w = (withTemporary dir start body >>= _).run w
  match h : (body ⟨.single, temporaryPlace w.tree dir start⟩).run
      (w.withDirectory (temporaryPlace w.tree dir start)) with
  | (.ok a, u) =>
    rw [run_bind_of_ok (run_withTemporary_of_run rfl h)]
    exact run_withTemporary_of_run rfl (run_bind_of_ok h)
  | (.error e, u) =>
    rw [run_bind_of_error (run_withTemporary_of_run rfl h)]
    exact run_withTemporary_of_run rfl (run_bind_of_error h)

end Action

theorem Action.quiet_withTemporary {α : Type} {dir : Place} {start : String}
    {body : Path → Action α} (h : ∀ place, (body place).Quiet) :
    (withTemporary dir start body).Quiet :=
  fun w => h _ (w.withDirectory (temporaryPlace w.tree dir start))

namespace Compiler

variable {c : Compiler} {files : List (String × String)} {purpose : Purpose}

/-- **Staging sources** in the project, and nothing else. -/
def stageOnly (options : CompilerOptions) (files : List (String × String)) :
    Action (List (String × String)) :=
  inStaging options fun root staging => stageFiles staging root files

/-- **Sources are staged up to the first one that does not start with the root.** -/
theorem stageFiles_outside {staging : Path} {f : String × String}
    (hf : (Path.ofString f.1).below? root = none) (before after : List (String × String)) :
    stageFiles staging root (before ++ f :: after) =
      stageFiles staging root before >>= fun _ => fail (.sourceOutsideRoot f.1 root.text) := by
  have hfail : stageFile staging root f.1 f.2 = fail (.sourceOutsideRoot f.1 root.text) := by
    rw [stageFile, hf]
  simp only [stageFiles]
  induction before with
  | nil => simp only [List.nil_append, mapEach, hfail, fail_bind, pure_bind]
  | cons g before ih =>
    simp only [List.cons_append, mapEach, ih, bind_assoc, fail_bind, pure_bind]

/-- **A run is refused at the first source that does not start with the root**, if the sources before
it can be staged. -/
theorem run_of_outside (hw : w.Grounded) (hroot : options.path .rootDir = .ok root)
    {f : String × String} (hf : (Path.ofString f.1).below? root = none)
    (before after : List (String × String)) :
    (c.run tools policy options (before ++ f :: after) purpose).run w =
      (stageOnly options before >>= fun _ => fail (.sourceOutsideRoot f.1 root.text)).run w := by
  rw [run_eq_inStaging]
  match hopen : (openRoot options).run w with
  | (.error e, v) =>
    have hstops {α : Type} (body : Path → Path → Action α) :
        (inStaging options body).run w = (.error e, v) := run_bind_of_error hopen
    rw [stageOnly, run_bind_of_error (hstops _), run_bind_of_error (hstops _)]
  | (.ok (found, dir), v) =>
    obtain rfl : root = found :=
      Except.ok.inj (hroot.symm.trans (directory_of_run_openRoot hw hopen).1)
    have hgoes {α : Type} (body : Path → Path → Action α) : (inStaging options body).run w =
        (withTemporary dir ".dnt-staging-" (body root)).run v := run_bind_of_ok hopen
    have hstaged : c.stagedRun tools policy options root (before ++ f :: after) purpose =
        fun staging => stageFiles staging root before >>= fun _ =>
          fail (.sourceOutsideRoot f.1 root.text) := by
      funext staging
      simp only [stagedRun, stage, stageFiles_outside hf, bind_assoc, fail_bind]
    rw [run_bind, hgoes, hstaged, withTemporary_bind_fail, stageOnly, run_bind, run_bind, hgoes]
    cases (withTemporary dir ".dnt-staging-" fun staging =>
      stageFiles staging root before).run v with
    | mk r u => cases r <;> rfl

/-! ### What staging comes to -/

theorem quiet_stageOnly (options : CompilerOptions) (files : List (String × String)) :
    (stageOnly options files).Quiet :=
  (quiet_openRoot options).bind fun place => quiet_withTemporary fun staging =>
    quiet_stageFiles staging place.1 files

/-- **Staging sources makes the way to the project** and nothing else. -/
theorem madeWay_stageOnly (hw : w.Grounded)
    (hplain : ∀ root, options.path .rootDir = .ok root →
      ∀ f ∈ files, Path.up ∉ sourceParts root f.1) :
    w.MadeWay ∅ options ((stageOnly options files).run w).2 := by
  refine madeWay_inStaging hw fun root place v hroot hv hdir hplace => ?_
  refine Within.mapEach fun f hf u hu => ?_
  have hu' := (hv.trans (hu.mono (Set.subset_univ _))).grounded hw
  exact (within_stageFile hu' (hu.directories _ hdir) hplace (hplain root hroot f hf)).mono
    Set.subset_union_left

/-- **What work in a staging directory fails with** is what the work fails with, or a fault. -/
theorem throws_inStaging {α : Type} {P : Failure → Prop} (hfault : ∀ f, P (.fault f))
    {body : Path → Path → Action α}
    (h : ∀ root staging, options.path .rootDir = .ok root → (body root staging).Throws P)
    (hw : w.Grounded) {e : Failure} (herror : ((inStaging options body).run w).1 = .error e) :
    P e := by
  have hopens : (openRoot options).Throws P :=
    (throws_look hfault _).bind fun _ => (throws_change hfault _).bind fun _ =>
      (throws_look hfault _).bind fun _ => throws_pure _
  match hopen : (openRoot options).run w with
  | (.error e', v) =>
    rw [inStaging, run_bind_of_error hopen, Except.error.injEq] at herror
    exact herror ▸ hopens w e' v hopen
  | (.ok (root, dir), v) =>
    rw [inStaging, run_bind_of_ok hopen, run_withTemporary] at herror
    exact h root _ (directory_of_run_openRoot hw hopen).1 _ e _ (run_eq herror)

/-- **Staging a source that starts with the root** fails with faults only. -/
theorem throws_stageFile {P : Failure → Prop} (hfault : ∀ f, P (.fault f)) {staging : Path}
    {path text : String} (h : ((Path.ofString path).below? root).isSome) :
    (stageFile staging root path text).Throws P := by
  obtain ⟨relative, hrelative⟩ := Option.isSome_iff_exists.1 h
  rw [stageFile, hrelative]
  exact (throws_change hfault _).bind fun _ => (throws_step hfault _).bind fun _ => throws_pure _

theorem throws_stageFiles {P : Failure → Prop} (hfault : ∀ f, P (.fault f)) {staging : Path}
    (h : ∀ f ∈ files, ((Path.ofString f.1).below? root).isSome) :
    (stageFiles staging root files).Throws P := by
  induction files with
  | nil => exact throws_pure []
  | cons f files ih =>
    rw [List.forall_mem_cons] at h
    exact (throws_stageFile hfault h.1).bind fun _ => (ih h.2).bind fun _ => throws_pure _

/-- **No other run is refused**: if all sources start with the root, a run does not end with a source
that is outside, whatever dots there are in their paths. -/
theorem not_refused (hw : w.Grounded) (h : ∀ root, options.path .rootDir = .ok root →
      ∀ f ∈ files, ((Path.ofString f.1).below? root).isSome) (path text : String) :
    ((c.run tools policy options files purpose).run w).1 ≠
      .error (.problem (.sourceOutsideRoot path text)) := by
  have hother : ∀ e : Failure, e.OfFiles → e ≠ .problem (.sourceOutsideRoot path text) := by
    rintro e he rfl
    exact he
  have hfault : ∀ f, Failure.fault f ≠ .problem (.sourceOutsideRoot path text) := by simp
  have hstaged : ∀ root staging, options.path .rootDir = .ok root →
      (c.stagedRun tools policy options root files purpose staging).Throws
        (· ≠ .problem (.sourceOutsideRoot path text)) := by
    intro root staging hroot
    refine Throws.bind ((throws_stageFiles hfault (h root hroot)).bind fun staged => ?_) fun _ => ?_
    · dsimp only
      split
      · exact throws_fail (by simp)
      · refine (throws_step hfault _).bind fun _ => Throws.bind ?_ fun _ => ?_
        · rw [Policy.checkRun]
          split
          · exact throws_pure ()
          · exact (throws_log _ _).bind fun _ => throws_fail (by simp)
        · exact (throws_log _ _).bind fun _ => throws_get.bind fun _ => throws_pure _
    · refine Throws.bind ?_ fun _ => throws_pure _
      refine throws_get.bind fun _ => (throws_modify _).bind fun _ => ?_
      split
      · exact throws_fail (by simp)
      · exact throws_fail (by simp)
      · refine Throws.bind (fun w e v he => ?_) fun _ => throws_pure _
        exact hother e (throws_leaveOutputs purpose _ w e v he)
  have hinterpret : ∀ command ending staged, (interpret command ending staged).Throws
      (· ≠ .problem (.sourceOutsideRoot path text)) := by
    intro command ending staged
    refine (throws_look hfault _).bind fun reading => ?_
    refine (Throws.forEach (fun _ => throws_log _ _) _).bind fun _ => ?_
    split
    · exact throws_fail (by simp)
    · exact throws_pure _
  intro herror
  rw [run_eq_inStaging] at herror
  rcases hrun : (inStaging options
      (fun root => c.stagedRun tools policy options root files purpose)).run w with ⟨e | ended, v⟩
  · rw [run_bind_of_error hrun, Except.error.injEq] at herror
    exact throws_inStaging hfault hstaged hw (congrArg Prod.fst hrun) herror
  · rw [run_bind_of_ok hrun] at herror
    exact hinterpret _ _ _ v _ _ (run_eq herror) rfl

/-- **A run that was refused**: the compiler was not started, nothing but the way to the project was
made, and the failure is about the first source that does not start with the root, unless the
sources before that could not be staged. Staging begins in the workspace `start`. -/
structure Refused (options : CompilerOptions) (root : Path) (files : List (String × String))
    (start w : Workspace) (e : Failure) (v : Workspace) : Prop where
  failure : ∃ before f after, files = before ++ f :: after ∧
    (∀ g ∈ before, ((Path.ofString g.1).below? root).isSome) ∧
    (Path.ofString f.1).below? root = none ∧
      (((∃ staged, ((stageOnly options before).run start).1 = .ok staged) ∧
          e = .problem (.sourceOutsideRoot f.1 root.text)) ∨
        ∃ fault, ((stageOnly options before).run start).1 = .error (.fault fault) ∧ e = .fault fault)
  deeds : v.deeds = w.deeds
  way : w.MadeWay ∅ options v

/-- **A run with a source that does not start with the root is refused.** -/
theorem refused_run (c : Compiler) (tools : Tools) (policy : Policy) (purpose : Purpose)
    (hw : w.Grounded) (hroot : options.path .rootDir = .ok root)
    (hplain : ∀ f ∈ files, Path.up ∉ sourceParts root f.1)
    (hout : ∃ f ∈ files, (Path.ofString f.1).below? root = none) :
    ∃ e v, (c.run tools policy options files purpose).run w = (.error e, v) ∧
      Refused options root files w w e v := by
  obtain ⟨f, hfirst⟩ : ∃ f, files.find? (fun f => ((Path.ofString f.1).below? root).isNone) =
      some f := by
    rw [← Option.isSome_iff_exists, List.find?_isSome]
    exact hout.imp fun f hf => ⟨hf.1, by rw [hf.2]; rfl⟩
  obtain ⟨hf, before, after, rfl, hbefore⟩ := List.find?_eq_some_iff_append.1 hfirst
  rw [Option.isNone_iff_eq_none] at hf
  have hinside : ∀ g ∈ before, ((Path.ofString g.1).below? root).isSome := by
    intro g hg
    simpa using hbefore g hg
  have hway : w.MadeWay ∅ options ((stageOnly options before).run w).2 := by
    refine madeWay_stageOnly hw fun root' hroot' g hg => ?_
    obtain rfl := Except.ok.inj (hroot.symm.trans hroot')
    exact hplain g (List.mem_append_left _ hg)
  have hquiet := quiet_stageOnly options before w
  rw [run_of_outside hw hroot hf]
  match honly : (stageOnly options before).run w with
  | (.ok staged, v) =>
    rw [honly] at hway hquiet
    refine ⟨_, v, run_bind_of_ok honly, ⟨⟨before, f, after, rfl, hinside, hf, .inl ?_⟩, hquiet, hway⟩⟩
    exact ⟨⟨staged, by rw [honly]⟩, rfl⟩
  | (.error e, v) =>
    rw [honly] at hway hquiet
    obtain ⟨fault, rfl⟩ : ∃ fault, e = .fault fault := by
      refine throws_inStaging (P := fun e => ∃ fault, e = .fault fault) (fun fault => ⟨fault, rfl⟩)
        (fun root' staging hroot' => ?_) hw (congrArg Prod.fst honly)
      obtain rfl := Except.ok.inj (hroot.symm.trans hroot')
      exact throws_stageFiles (fun fault => ⟨fault, rfl⟩) hinside
    refine ⟨_, v, run_bind_of_error honly,
      ⟨⟨before, f, after, rfl, hinside, hf, .inr ?_⟩, hquiet, hway⟩⟩
    exact ⟨fault, by rw [honly], rfl⟩

end Compiler

namespace Program

/-- **A source that lies outside is refused**, by a check and by an emission, if no source has a
double dot below the source root. The compiler is not started, and nothing but the way to the
project is made. -/
theorem outside_refused (p : Program) (c : Compiler) (tools : Tools) (policy : Policy)
    (hw : w.Grounded) (hroot : p.options.path .rootDir = .ok root) (hplain : p.Plain)
    (hout : ∃ f ∈ p.files, LiesOutside root w.cwd f.1) :
    (∃ e v, (p.check c tools policy).run w = (.error e, v) ∧
        Compiler.Refused p.options root p.files w w e v) ∧
      (w.tree.get? temporaryRoot = some .directory → ∀ declarationsOnly transforms write,
        ∃ e v, (p.emit c tools policy declarationsOnly transforms write).run w = (.error e, v) ∧
          Compiler.Refused p.options root (p.prepared transforms)
            (w.withDirectory (temporaryPlace w.tree temporaryRoot "dnt-emit-")) w e v) := by
  obtain ⟨f, hf, hliesOutside⟩ := hout
  have hnone := below?_of_liesOutside hliesOutside (hplain root hroot f hf)
  refine ⟨Compiler.refused_run c tools policy .check hw hroot (hplain root hroot) ⟨f, hf, hnone⟩, ?_⟩
  intro htmp declarationsOnly transforms write
  have hbegin := within_withDirectory "dnt-emit-" htmp
  obtain ⟨e, v, hrun, hrefused⟩ := Compiler.refused_run c tools policy (.emit declarationsOnly
      (some ⟨.single, temporaryPlace w.tree temporaryRoot "dnt-emit-"⟩)) (hbegin.grounded hw) hroot
    (hplain.prepared transforms root hroot) ⟨_, List.mem_map_of_mem hf, hnone⟩
  have hemit : (p.emitFrom c tools policy declarationsOnly transforms write
      ⟨.single, temporaryPlace w.tree temporaryRoot "dnt-emit-"⟩).run
        (w.withDirectory (temporaryPlace w.tree temporaryRoot "dnt-emit-")) = (.error e, v) :=
    run_bind_of_error hrun
  refine ⟨e, _, run_withTemporary_of_run rfl hemit, hrefused.failure, hrefused.deeds, ?_⟩
  exact madeWay_withTemporary htmp (hrefused.way.mono (Set.empty_subset _))

/-- A program with a source in another directory. -/
def strayProgram : Program :=
  ⟨.base (.ofString "npm") false none,
    [("npm/src/mod.ts", "1;\n"), ("lib/mod.ts", "2;\n")]⟩

theorem outside_refused_stray :
    (∃ e v, (strayProgram.check .standard returnTools .unrestricted).run bareWorkspace =
        (.error e, v) ∧ Compiler.Refused strayProgram.options (.ofString "npm/src")
          strayProgram.files bareWorkspace bareWorkspace e v) ∧
      ∃ e v, (strayProgram.emit .standard returnTools .unrestricted false []
          (Pass.writeEmitted .unrestricted)).run bareWorkspace = (.error e, v) ∧
        Compiler.Refused strayProgram.options (.ofString "npm/src") (strayProgram.prepared [])
          (bareWorkspace.withDirectory ["tmp", "dnt-emit-X"]) bareWorkspace e v := by
  have hw : bareWorkspace.Grounded := ⟨.ofString "/p", by decide, by decide +kernel⟩
  have hplain : strayProgram.Plain := by
    intro root hroot
    obtain rfl : Path.ofString "npm/src" = root := Except.ok.inj hroot
    decide +kernel
  have hroot : strayProgram.options.path .rootDir = .ok (.ofString "npm/src") := rfl
  obtain ⟨hcheck, hemit⟩ := outside_refused strayProgram .standard returnTools .unrestricted hw
    hroot hplain ⟨_, .tail _ (.head _), by decide +kernel⟩
  exact ⟨hcheck, hemit (by decide +kernel) false [] (Pass.writeEmitted .unrestricted)⟩

/-- A program with a source that leaves the source root by double dots. -/
def climbingProgram : Program :=
  ⟨.base (.ofString "npm") false none, [("npm/src/../../evil.ts", "1;\n")]⟩

/-- **A source that leaves the root by double dots is not refused**: it lies outside, and yet it is
written there, and the compiler is run. -/
theorem outside_accepted :
    LiesOutside (.ofString "npm/src") bareWorkspace.cwd "npm/src/../../evil.ts" ∧
      ((climbingProgram.check .standard returnTools .unrestricted).run bareWorkspace).1.isOk =
        true ∧
      ((climbingProgram.check .standard returnTools .unrestricted).run bareWorkspace).2.deeds =
        [.compiled .check] ∧
      bareWorkspace.tree.get? ["p", "evil.ts"] = none ∧
      ((climbingProgram.check .standard returnTools .unrestricted).run bareWorkspace).2.tree.file?
        ["p", "evil.ts"] = some "1;\n".toUTF8 := by
  decide +kernel

end Program

end DenoPackager
