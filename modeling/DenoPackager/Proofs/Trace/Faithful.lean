import DenoPackager.Proofs.Basics.Repetition
import DenoPackager.Proofs.Exit.Compiler
import DenoPackager.Proofs.Trace.Compiler

/-!
# What the compiler finds

When the compiler is started, each source is in the staging directory, at its path below the source
root, and the configuration names exactly these paths, in ascending order. A diagnostic that names
one of them is brought back to the path that the source came from. The text is staged byte for byte:
no line end is changed.

There is one exception. The configuration is written after the sources, to a file of its own name in
the same directory. A source of that name is lost: the compiler finds the configuration instead.

A check runs over the files of the program, and an emission over what the changes of the pass have
made of them.

## Main definitions

* `CompilerRun.Faithful`: what a run finds, where it finds the sources as they are.
* `Compiler.RunsFaithfully`: if the compiler is started, it is started there.

## Main results

* `Compiler.runsFaithfully`: all that the compiler finds in a run over sources.
* `Program.staged_as_they_are`: the same for checking and for emitting a program.
* `Program.lost_source`: a source that is lost.
-/

namespace DenoPackager

open DenoPackager.Action

variable {w v u : Workspace} {options : CompilerOptions} {root : Path} {tools : Tools}
  {policy : Policy} {place : Place} {files staged : List (String × String)}

/-! ### Lists -/

/-- In a list without a key twice, the order makes no difference to what is found. -/
theorem lookup_reverse_of_nodup {l : List (String × String)} (h : (l.map Prod.fst).Nodup)
    {a b : String} (hmem : (a, b) ∈ l) : l.reverse.lookup a = some b := by
  obtain ⟨before, after, rfl⟩ := List.append_of_mem hmem
  rw [List.lookup_eq_some_iff]
  refine ⟨after.reverse, before.reverse, by simp, fun q hq => ?_⟩
  rw [List.map_append, List.map_cons, List.nodup_append, List.nodup_cons] at h
  have hne : q.1 ≠ a := fun heq => h.2.1.1 (List.mem_map.2 ⟨q, List.mem_reverse.1 hq, heq⟩)
  simpa using hne.symm

/-- What is done after an action is done to what it has come to. -/
theorem Action.run_ensuring {α : Type} {m : Action α} {r : Except Failure α}
    (h : m.run w = (r, v)) (last : Workspace → Workspace) :
    (ensuring m last).run w = (r, last v) := by
  simp only [run] at h
  simp only [run, ensuring, h]

/-! ### Sources -/

/-- Sources at different paths below the root have different names. -/
theorem sourceName_eq_iff {path path' : String} (h : IsSource root path) (h' : IsSource root path') :
    sourceName root path = sourceName root path' ↔ sourceParts root path = sourceParts root path' := by
  constructor
  · intro heq
    have hpath := Path.text_injective h.proper h'.proper heq
    exact congrArg Path.parts hpath
  · intro heq
    rw [sourceName, heq, sourceName]

/-- **A source that was staged** lies below the source root. -/
theorem isSource_of_run_stageFile (hw : w.Grounded) (hdir : w.tree.get? place = some .directory)
    (hplace : Path.up ∉ place) {path text : String} (hplain : Path.up ∉ sourceParts root path)
    {b : String × String}
    (h : (stageFile ⟨.single, place⟩ root path text).run w = (.ok b, v)) :
    IsSource root path ∧ b = (sourceName root path, path) := by
  rw [stageFile] at h
  cases hbelow : (Path.ofString path).below? root with
  | none =>
    rw [hbelow, run_fail] at h
    simp at h
  | some relative =>
    have hrelative : relative = ⟨.none, sourceParts root path⟩ := by
      rw [sourceParts, hbelow, Option.map_some, Option.getD_some, ← Path.root_of_below? hbelow]
    rw [hbelow, hrelative] at h
    obtain ⟨_, x, hmade, h⟩ := of_run_bind_eq_ok h
    obtain ⟨_, y, hstep, h⟩ := of_run_bind_eq_ok h
    rw [run_pure, Prod.mk.injEq, Except.ok.injEq] at h
    refine ⟨⟨hbelow.trans (congrArg some hrelative), fun hnil => ?_, hplain⟩, h.1.symm⟩
    -- the staging directory itself is no place for a file
    have hkept : w.Within {q | place <+: q} x :=
      (within_makeDirs_below hw hdir hplace hplain).of_run hmade
    obtain ⟨t, hwrite, -⟩ := of_run_step_eq_ok hstep
    refine ((FileTree.write_eq_ok_iff (hkept.grounded hw).directory).1 hwrite).2.1 ?_
    have htarget : Path.follow [] (place ++ sourceParts root path) = place := by
      rw [hnil, List.append_nil, Path.follow_of_not_mem hplace, List.nil_append]
    exact (congrArg _ htarget).trans (hkept.directories place hdir)

theorem isSource_of_run_stageFiles (hw : w.Grounded) (hdir : w.tree.get? place = some .directory)
    (hplace : Path.up ∉ place) (hplain : ∀ f ∈ files, Path.up ∉ sourceParts root f.1)
    (h : (stageFiles ⟨.single, place⟩ root files).run w = (.ok staged, v)) :
    (∀ f ∈ files, IsSource root f.1) ∧ staged = files.map fun f => (sourceName root f.1, f.1) := by
  induction files generalizing w staged with
  | nil =>
    rw [stageFiles, mapEach, run_pure, Prod.mk.injEq, Except.ok.injEq] at h
    exact ⟨by simp, h.1.symm⟩
  | cons f files ih =>
    rw [List.forall_mem_cons] at hplain ⊢
    obtain ⟨b, x, hfirst, h⟩ := of_run_bind_eq_ok h
    obtain ⟨bs, y, hrest, h⟩ := of_run_bind_eq_ok h
    rw [run_pure, Prod.mk.injEq, Except.ok.injEq] at h
    rw [h.2] at hrest
    have hx := (Compiler.within_stageFile hw hdir hplace hplain.1).of_run hfirst
    obtain ⟨hsource, rfl⟩ := isSource_of_run_stageFile hw hdir hplace hplain.1 hfirst
    obtain ⟨hsources, rfl⟩ :=
      ih (hx.grounded hw) (hx.directories _ hdir) hplain.2 hrest
    exact ⟨⟨hsource, hsources⟩, h.1.symm⟩

/-! ### Runs -/

/-- The file that the configuration is written to, in the staging directory. -/
def configurationName : String := "tsconfig.json"

/-- The only source with the name of the configuration is the one directly below the root. -/
theorem sourceName_eq_configurationName_iff {path : String} (h : IsSource root path) :
    sourceName root path = configurationName ↔ sourceParts root path = [configurationName] := by
  constructor
  · intro heq
    have hread := Path.ofString_text h.proper
    rw [← sourceName, heq] at hread
    exact (congrArg Path.parts hread).symm
  · intro heq
    rw [sourceName, heq]
    rfl

/-- Sources at different paths have names without repetition. -/
theorem nodup_sourceNames (hsources : ∀ f ∈ files, IsSource root f.1)
    (hdistinct : (files.map fun f => sourceParts root f.1).Nodup) :
    (files.map fun f => sourceName root f.1).Nodup := by
  rw [List.Nodup, List.pairwise_map] at hdistinct ⊢
  refine hdistinct.imp_of_mem fun {f g} hf hg hne heq => hne ?_
  exact (sourceName_eq_iff (hsources f hf) (hsources g hg)).1 heq

/-- **A run that finds the sources as they are**, in the workspace in which the compiler is started,
with the names and paths that diagnostics are brought back by. -/
structure CompilerRun.Faithful (root : Path) (files staged : List (String × String))
    (run : CompilerRun) (u : Workspace) : Prop where
  /-- The text of a source is found where it was staged, unless the configuration took its place. -/
  text_iff : ∀ f ∈ files,
    u.tree.readBytes u.cwd (run.directory.joinText (sourceName root f.1)) = .ok f.2.toUTF8 ↔
      (sourceName root f.1 ≠ configurationName ∨ f.2 = (Json.obj run.config).indentedText)
  /-- The configuration is found in its place, whatever source has the same name. -/
  configuration : u.tree.readBytes u.cwd (run.directory.child configurationName) =
    .ok (Json.obj run.config).indentedText.toUTF8
  /-- The configuration names the sources in ascending order, and nothing else. -/
  listed : run.config.get? "files" = some (.arr (((files.map fun f => sourceName root f.1).mergeSort
    fun a b => decide (a ≤ b)).map .str))
  /-- Each name leads back to the path of the source. -/
  back : ∀ f ∈ files, staged.reverse.lookup (sourceName root f.1) = some f.1

namespace Compiler

variable {c : Compiler} {purpose : Purpose} {run : CompilerRun}

theorem get?_files_of_configuration {sources : List String} {config : Members}
    (h : configuration? options sources purpose = some config) :
    config.get? "files" = some (.arr (sources.map .str)) := by
  cases purpose with
  | check =>
    obtain rfl := Option.some.inj h
    rfl
  | emit only dir =>
    cases dir with
    | none => simp [configuration?] at h
    | some dir =>
      obtain rfl := Option.some.inj h
      rfl

/-- **Staging is faithful**, but for a source with the name of the configuration. -/
theorem faithful_stage (hw : w.Grounded) (hdir : w.tree.get? place = some .directory)
    (hplace : Path.up ∉ place) (hplain : ∀ f ∈ files, Path.up ∉ sourceParts root f.1)
    (hdistinct : (files.map fun f => sourceParts root f.1).Nodup)
    (h : (c.stage tools policy options root files purpose ⟨.single, place⟩).run w =
      (.ok (run, staged), u)) :
    run.Faithful root files staged u := by
  obtain ⟨u₀, u₁, hstaged, hconfig, hstep, hannounced, hdirectory, -⟩ :=
    c.of_run_stage_eq_ok tools policy options h
  have hlater := sameOutside_of_announced hannounced
  obtain ⟨hsources, rfl⟩ := isSource_of_run_stageFiles hw hdir hplace hplain hstaged
  have hleads := Workspace.leads_place hdir hplace
  obtain ⟨hwrote, hnames, -⟩ := of_run_stageFiles hw hleads hsources hstaged
  have hbefore := hwrote.sameOutside
  have hnamed : ((files.map fun f => (sourceName root f.1, f.1)).map Prod.fst) =
      files.map fun f => sourceName root f.1 := by
    rw [List.map_map]
    rfl
  have hnodup := nodup_sourceNames hsources hdistinct
  obtain ⟨hconfigNames, hwrite⟩ := wrote_step_below (hbefore.grounded hw)
    (hbefore.leads hleads) (List.cons_ne_nil configurationName []) (by decide) hstep
  -- the configuration is the last to be written: only its own place is not as it was staged
  have hall := hwrite.before hlater
  have hconfigFile : u.tree.file? (place ++ [configurationName]) =
      some (Json.obj run.config).indentedText.toUTF8 :=
    hall.tree.file?_eq List.mem_cons_self (by simp)
  rw [hnamed, eraseDups_of_nodup hnodup] at hconfig
  refine ⟨fun f hf => ?_, ?_, get?_files_of_configuration hconfig, fun f hf => ?_⟩
  · have hname := hall.sameOutside.names (hnames f hf)
    rw [hdirectory, (hsources f hf).joinText, hname.readBytes_eq_ok_iff]
    by_cases hparts : sourceParts root f.1 = [configurationName]
    · -- the configuration took the place of the source
      have hsame := (sourceName_eq_configurationName_iff (hsources f hf)).2 hparts
      rw [hparts, hconfigFile, Option.some.injEq, hsame]
      simp only [ne_eq, not_true_eq_false, false_or]
      exact ⟨fun heq => (toUTF8_injective heq).symm, fun heq => by rw [heq]⟩
    · have hother := mt (sourceName_eq_configurationName_iff (hsources f hf)).1 hparts
      refine iff_of_true ?_ (.inl hother)
      rw [hall.tree.kept _ (by simpa using hparts)]
      refine hwrote.tree.file?_eq (List.mem_map_of_mem hf) fun content hcontent => ?_
      obtain ⟨g, hg, heq⟩ := List.mem_map.1 hcontent
      rw [Prod.mk.injEq, List.append_cancel_left_eq] at heq
      obtain rfl := List.inj_on_of_nodup_map hdistinct hg hf heq.1
      exact heq.2.symm
  · rw [hdirectory]
    exact (hlater.names hconfigNames).readBytes_eq_ok_iff.2 hconfigFile
  · refine lookup_reverse_of_nodup ?_ (List.mem_map_of_mem hf)
    rwa [hnamed]

/-- **The rest of a run**, from the start of the compiler on. -/
def proceed (c : Compiler) (tools : Tools) (purpose : Purpose) (run : CompilerRun)
    (staged : List (String × String)) : Action (List Diagnostic) := do
  let ending ← ensuring (c.execute tools purpose run)
    fun w => { w with tree := w.tree.erase run.directory.parts }
  interpret run.command ending staged

/-- What is ready was staged in a directory that is there, and the run goes on from there. -/
theorem of_run_ready (hw : w.Grounded)
    (h : (c.ready tools policy options files purpose).run w = (.ok (run, staged), u)) :
    ∃ root place v, options.path .rootDir = .ok root ∧ v.Grounded ∧
      v.tree.get? place = some .directory ∧ Path.up ∉ place ∧
      (c.stage tools policy options root files purpose ⟨.single, place⟩).run v =
        (.ok (run, staged), u) ∧
      (c.run tools policy options files purpose).run w =
        (c.proceed tools purpose run staged).run u := by
  obtain ⟨⟨root, dir⟩, x, hopen, hstage⟩ := of_run_bind_eq_ok h
  simp only [run_bind_of_ok (run_get _), run_bind_of_ok (run_modify _ _)] at hstage
  obtain ⟨hroot, hdir, hup⟩ := directory_of_run_openRoot hw hopen
  have hx := (madeWay_openRoot options hw).2
  rw [hopen] at hx
  refine ⟨root, _, _, hroot, (within_withDirectory _ hdir).grounded (hx.grounded hw),
    get?_withDirectory_temporaryPlace _ _ _, up_not_mem_temporaryPlace hup (by decide), hstage, ?_⟩
  obtain ⟨_, _, _, _, _, _, hdirectory, -⟩ := c.of_run_stage_eq_ok tools policy options hstage
  rw [Compiler.run, run_bind_of_ok hopen, proceed, hdirectory]
  rcases hexecute : (c.execute tools purpose run).run u with ⟨e | ending, y⟩
  · have hbody : (c.stagedRun tools policy options root files purpose
        ⟨.single, temporaryPlace x.tree dir ".dnt-staging-"⟩).run
          (x.withDirectory (temporaryPlace x.tree dir ".dnt-staging-")) = (.error e, y) := by
      rw [stagedRun, run_bind_of_ok hstage, run_bind_of_error hexecute]
    rw [run_bind_of_error (run_withTemporary_of_run rfl hbody),
      run_bind_of_error (run_ensuring hexecute _)]
  · have hbody : (c.stagedRun tools policy options root files purpose
        ⟨.single, temporaryPlace x.tree dir ".dnt-staging-"⟩).run
          (x.withDirectory (temporaryPlace x.tree dir ".dnt-staging-")) =
            (.ok (run.command, ending, staged), y) := by
      rw [stagedRun, run_bind_of_ok hstage, run_bind_of_ok hexecute, run_pure]
    rw [run_bind_of_ok (run_withTemporary_of_run rfl hbody),
      run_bind_of_ok (run_ensuring hexecute _)]

/-- **Nothing but what is ready is started**: where nothing gets ready, the run ends with that and
does not start the compiler. -/
theorem run_of_ready_error {e : Failure}
    (h : (c.ready tools policy options files purpose).run w = (.error e, v)) :
    ∃ u, (c.run tools policy options files purpose).run w = (.error e, u) ∧ u.deeds = w.deeds := by
  have hquiet : (c.ready tools policy options files purpose).Quiet := by
    refine (quiet_openRoot options).bind fun opened => quiet_get.bind fun x => ?_
    exact Quiet.bind (quiet_modify fun _ => rfl) fun _ => quiet_stage _ _ _ _ _ _ _ _
  have hdeeds : v.deeds = w.deeds := hquiet.deeds_eq h
  rcases hopen : (openRoot options).run w with ⟨e' | ⟨root, dir⟩, x⟩
  · rw [ready, run_bind_of_error hopen, Prod.mk.injEq, Except.error.injEq] at h
    obtain ⟨rfl, rfl⟩ := h
    exact ⟨x, run_bind_of_error hopen, hdeeds⟩
  · rw [ready, run_bind_of_ok hopen] at h
    simp only [run_bind_of_ok (run_get _), run_bind_of_ok (run_modify _ _)] at h
    have hbody : (c.stagedRun tools policy options root files purpose
        ⟨.single, temporaryPlace x.tree dir ".dnt-staging-"⟩).run
          (x.withDirectory (temporaryPlace x.tree dir ".dnt-staging-")) = (.error e, v) :=
      run_bind_of_error h
    rw [Compiler.run, run_bind_of_ok hopen, run_bind_of_error (run_withTemporary_of_run rfl hbody)]
    exact ⟨_, rfl, hdeeds⟩

/-- **A run over sources as they are.** If the compiler is started at all, it is started where it
finds the sources as they are, and the run goes on from there. -/
structure RunsFaithfully (c : Compiler) (tools : Tools) (policy : Policy)
    (options : CompilerOptions) (root : Path) (files : List (String × String)) (purpose : Purpose)
    (w : Workspace) : Prop where
  started : ∀ run staged u,
    (c.ready tools policy options files purpose).run w = (.ok (run, staged), u) →
      run.Faithful root files staged u ∧
        (c.run tools policy options files purpose).run w =
          (c.proceed tools purpose run staged).run u
  unstarted : ∀ e v, (c.ready tools policy options files purpose).run w = (.error e, v) →
    ∃ u, (c.run tools policy options files purpose).run w = (.error e, u) ∧ u.deeds = w.deeds

/-- **Runs find the sources as they are**, if these lie at different places below the root. -/
theorem runsFaithfully (c : Compiler) (tools : Tools) (policy : Policy) (purpose : Purpose)
    (hw : w.Grounded) (hroot : options.path .rootDir = .ok root)
    (hplain : ∀ f ∈ files, Path.up ∉ sourceParts root f.1)
    (hdistinct : (files.map fun f => sourceParts root f.1).Nodup) :
    c.RunsFaithfully tools policy options root files purpose w where
  started run staged u h := by
    obtain ⟨found, place, v, hfound, hv, hdir, hplace, hstage, hrun⟩ := of_run_ready hw h
    obtain rfl : root = found := Except.ok.inj (hroot.symm.trans hfound)
    exact ⟨faithful_stage hv hdir hplace hplain hdistinct hstage, hrun⟩
  unstarted e v h := run_of_ready_error h

end Compiler

namespace Program

/-- **The compiler finds the sources as they are.** When it is started, by a check or by an
emission, each source is in the staging directory with its text, in an emission with what the
changes of the pass have made of it. The configuration names exactly the sources, and diagnostics
are brought back to their paths. What is found in place of a source with the name of the
configuration is the configuration. -/
theorem staged_as_they_are (p : Program) (c : Compiler) (tools : Tools) (policy : Policy)
    (hw : w.Grounded) (hroot : p.options.path .rootDir = .ok root) (hplain : p.Plain)
    (hdistinct : (p.files.map fun f => sourceParts root f.1).Nodup) :
    c.RunsFaithfully tools policy p.options root p.files .check w ∧
      ∀ transforms declarationsOnly scratch, c.RunsFaithfully tools policy p.options root
        (p.prepared transforms) (.emit declarationsOnly scratch) w := by
  refine ⟨c.runsFaithfully tools policy .check hw hroot (hplain root hroot) hdistinct,
    fun transforms declarationsOnly scratch => ?_⟩
  refine c.runsFaithfully tools policy _ hw hroot (hplain.prepared transforms root hroot) ?_
  rw [prepared, List.map_map]
  exact hdistinct

/-- A program of two modules. -/
def twoModules : Program :=
  ⟨.base (.ofString "npm") false none,
    [("npm/src/mod.ts", "import.meta.main;\n"), ("npm/src/lib/mod.ts", "2;\r\n")]⟩

theorem staged_as_they_are_two : ∃ run staged u,
    (Compiler.standard.ready returnTools .unrestricted twoModules.options
      (twoModules.prepared [.importMeta]) (.emit false (some ⟨.single, ["tmp", "dnt-emit-X"]⟩))).run
        (bareWorkspace.withDirectory ["tmp", "dnt-emit-X"]) = (.ok (run, staged), u) ∧
      run.Faithful (.ofString "npm/src") (twoModules.prepared [.importMeta]) staged u := by
  have hw : (bareWorkspace.withDirectory ["tmp", "dnt-emit-X"]).Grounded :=
    ⟨.ofString "/p", by decide, by decide +kernel⟩
  have hplain : twoModules.Plain := by
    intro root hroot
    obtain rfl : Path.ofString "npm/src" = root := Except.ok.inj hroot
    decide +kernel
  have hok : ((Compiler.standard.ready returnTools .unrestricted twoModules.options
      (twoModules.prepared [.importMeta]) (.emit false (some ⟨.single, ["tmp", "dnt-emit-X"]⟩))).run
        (bareWorkspace.withDirectory ["tmp", "dnt-emit-X"])).1.isOk = true := by
    decide +kernel
  have hroot : twoModules.options.path .rootDir = .ok (.ofString "npm/src") := rfl
  obtain ⟨-, hemit⟩ := staged_as_they_are twoModules .standard returnTools .unrestricted hw hroot
    hplain (by decide +kernel)
  obtain ⟨⟨run, staged⟩, u, hready⟩ := exists_of_isOk hok
  exact ⟨run, staged, u, hready, ((hemit _ _ _).started run staged u hready).1⟩

/-- A program with a source that has the name of the configuration. -/
def configuredProgram : Program :=
  ⟨.base (.ofString "npm") false none,
    [("npm/src/mod.ts", "1;\n"), ("npm/src/tsconfig.json", "\x7b\x7d\n")]⟩

/-- The text of a configuration that has a member goes on in a second line. -/
theorem indentedText_ne_of_get? {config : Members} {key : String} {value : Json}
    (h : config.get? key = some value) : (Json.obj config).indentedText ≠ "\x7b\x7d\n" := by
  match config with
  | [] => simp [Table.get?] at h
  | (k, val) :: rest =>
    intro heq
    have hchars := congrArg String.toList heq
    simp [Json.indentedText, Json.indented, Json.newLine] at hchars

/-- **A source is lost**: the sources lie below the root at different paths, without a double dot,
and the compiler is started, but what it finds in the place of one of them is another text. -/
theorem lost_source :
    configuredProgram.Plain ∧
      (configuredProgram.files.map fun f => sourceParts (.ofString "npm/src") f.1).Nodup ∧
      ("npm/src/tsconfig.json", "\x7b\x7d\n") ∈ configuredProgram.files ∧
      ∃ run staged u,
        (Compiler.standard.ready returnTools .unrestricted configuredProgram.options
          configuredProgram.files .check).run bareWorkspace = (.ok (run, staged), u) ∧
        (configuredProgram.check .standard returnTools .unrestricted).run bareWorkspace =
          (Compiler.standard.proceed returnTools .check run staged).run u ∧
        u.tree.readBytes u.cwd (run.directory.joinText
          (sourceName (.ofString "npm/src") "npm/src/tsconfig.json")) ≠
            .ok "\x7b\x7d\n".toUTF8 := by
  have hw : bareWorkspace.Grounded := ⟨.ofString "/p", by decide, by decide +kernel⟩
  have hplain : configuredProgram.Plain := by
    intro root hroot
    obtain rfl : Path.ofString "npm/src" = root := Except.ok.inj hroot
    decide +kernel
  have hdistinct : (configuredProgram.files.map fun f =>
      sourceParts (.ofString "npm/src") f.1).Nodup := by
    decide +kernel
  have hroot : configuredProgram.options.path .rootDir = .ok (.ofString "npm/src") := rfl
  have hmem : ("npm/src/tsconfig.json", "\x7b\x7d\n") ∈ configuredProgram.files := by
    simp [configuredProgram]
  have hok : ((Compiler.standard.ready returnTools .unrestricted configuredProgram.options
      configuredProgram.files .check).run bareWorkspace).1.isOk = true := by
    decide +kernel
  refine ⟨hplain, hdistinct, hmem, ?_⟩
  obtain ⟨⟨run, staged⟩, u, hready⟩ := exists_of_isOk hok
  obtain ⟨hfaithful, hrun⟩ := (Compiler.standard.runsFaithfully returnTools .unrestricted .check hw
    hroot (hplain _ hroot) hdistinct).started run staged u hready
  refine ⟨run, staged, u, hready, hrun, fun hread => ?_⟩
  -- only the text of the configuration could be found under this name
  obtain hname | htext := (hfaithful.text_iff _ hmem).1 hread
  · exact hname (by decide +kernel)
  · exact indentedText_ne_of_get? hfaithful.listed htext.symm

end Program

end DenoPackager
