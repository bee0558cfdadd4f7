import DenoPackager.Proofs.Files.Staging
import DenoPackager.Proofs.Paths.Stem

/-!
# What is left of a run of the compiler

The temporary directory of a run is gone afterwards, with all that was staged in it. A run that
checks leaves no other trace in the files; a run that emits leaves what the compiler put out.

## Main results

* `of_run_withTemporary`, `temporaryPlace_free`: temporary directories.
* `Compiler.touches_check`: a run that checks touches no file.
* `Compiler.of_run_emit`: a run that emits leaves what the compiler put out.
-/

namespace DenoPackager

open DenoPackager.Action

variable {w v : Workspace} {place : Place}

/-! ### Temporary directories -/

/-- A fresh name starts as asked for. -/
theorem exists_freshName (names : List String) (start : String) :
    ∃ more, freshName names start = start ++ more := by
  rw [freshName]
  split
  · exact ⟨_, rfl⟩
  · exact ⟨_, rfl⟩

/-- A temporary directory is not the root. -/
theorem temporaryPlace_ne_nil (t : FileTree) (dir : Place) (start : String) :
    temporaryPlace t dir start ≠ [] := by
  simp [temporaryPlace]

/-- Nothing stands at the place of a temporary directory. -/
theorem temporaryPlace_free (t : FileTree) (dir : Place) (start : String) :
    t.get? (temporaryPlace t dir start) = none := by
  have hfresh := freshName_not_mem (t.childNames dir) start
  rw [FileTree.mem_childNames, Option.not_isSome_iff_eq_none] at hfresh
  exact hfresh

/-- A fresh name that starts with more than dots is no double dot. -/
theorem freshName_ne_up (names : List String) {start : String}
    (h : ¬ start.toList <+: Path.up.toList) : freshName names start ≠ Path.up := by
  obtain ⟨more, hmore⟩ := exists_freshName names start
  intro heq
  rw [hmore] at heq
  exact h ⟨more.toList, by rw [← String.toList_append, heq]⟩

/-- **A directory for temporary work** in a directory: nothing else changes, and it is where its
own place leads. -/
theorem withDirectory_leads {dir : Place} {name : String}
    (hdir : w.tree.get? dir = some .directory) (hup : Path.up ∉ dir)
    (hfree : w.tree.get? (dir ++ [name]) = none) (hname : name ≠ Path.up) :
    w.SameOutside ∅ (w.withDirectory (dir ++ [name])) ∧
      (w.withDirectory (dir ++ [name])).Leads ⟨.single, dir ++ [name]⟩ (dir ++ [name]) := by
  refine ⟨⟨rfl, FileTree.sameOutside_insert_directory hdir hfree, List.prefix_refl _⟩, ?_⟩
  refine Workspace.leads_place ?_ ?_
  · have hget := FileTree.get?_insert (t := w.tree) (p := dir ++ [name]) (n := .directory) (by simp)
      (by rwa [List.dropLast_concat]) (.inl rfl) (dir ++ [name])
    rwa [if_pos rfl] at hget
  · rw [List.mem_append, List.mem_singleton, not_or]
    exact ⟨hup, Ne.symm hname⟩

/-- **Temporary work that succeeded.** -/
theorem of_run_withTemporary {α : Type} {dir : Place} {start : String} {body : Path → Action α}
    {a : α} (h : (withTemporary dir start body).run w = (.ok a, v)) :
    ∃ u, (body ⟨.single, temporaryPlace w.tree dir start⟩).run
        (w.withDirectory (temporaryPlace w.tree dir start)) = (.ok a, u) ∧
      v = { u with tree := u.tree.erase (temporaryPlace w.tree dir start) } := by
  have hresult : ((body ⟨.single, temporaryPlace w.tree dir start⟩).run
      (w.withDirectory (temporaryPlace w.tree dir start))).1 = .ok a := congrArg Prod.fst h
  exact ⟨_, Prod.ext hresult rfl, (congrArg Prod.snd h).symm⟩

/-- Where a path leads through directories is what it locates. -/
theorem Workspace.Leads.of_locate {path : Path} {dir : Place} (h : w.Leads path dir)
    {n : Option Node}
    (hlocate : w.tree.locate w.cwd path = .ok (place, n)) : place = dir := by
  rw [FileTree.locate] at hlocate
  split at hlocate
  · simp at hlocate
  · rw [Workspace.Leads] at h
    split at hlocate
    · rename_i hlast
      rw [List.getLast?_eq_none_iff.1 hlast, FileTree.enter, Except.ok.injEq] at h
      rw [Except.ok.injEq, Prod.mk.injEq] at hlocate
      rw [← hlocate.1, h]
    · rename_i c hlast
      obtain ⟨cs, hparts⟩ := List.getLast?_eq_some_iff.1 hlast
      rw [hparts, FileTree.enter_append] at h
      rw [hparts, List.dropLast_concat] at hlocate
      cases henter : w.tree.enter (path.start w.cwd) cs with
      | error e => simp [henter] at hlocate
      | ok d =>
        simp only [henter, Except.ok.injEq, FileTree.lastStep] at hlocate
        rw [henter, Except.bind, FileTree.enter] at h
        split at hlocate
        · rename_i hc
          rw [if_pos hc, FileTree.enter, Except.ok.injEq] at h
          rw [← (Prod.mk.inj hlocate).1, h]
        · rename_i hc
          rw [if_neg hc] at h
          rw [← (Prod.mk.inj hlocate).1]
          split at h
          · rw [FileTree.enter, Except.ok.injEq] at h
            exact h
          · simp at h
          · simp at h

/-! ### Outputs -/

/-- **What the compiler puts out** is written below the directory that it emits to. -/
theorem of_run_writeOutputs (hw : w.Grounded) {dir : Path} (hdir : w.Leads dir place)
    {outputs : List (String × ByteArray)} (houtputs : ∀ o ∈ outputs, IsBelow o.1)
    (h : (writeOutputs dir outputs).run w = (.ok (), v)) :
    w.Wrote (outputs.map fun o => (place ++ (Path.ofString o.1).parts, o.2)) v := by
  obtain ⟨bs, hbs⟩ := of_run_forEach_eq_ok h
  refine (of_run_mapEach_eq_ok (s := Set.univ) (P := fun _ _ => True) (Q := fun _ _ => True)
    ?_ (fun _ _ => Set.mem_univ _) (fun _ _ _ _ _ => trivial) hbs).1
  intro o ho x hx b y hy
  obtain ⟨_, u, hmade, hstep⟩ := of_run_bind_eq_ok hy
  have hbefore := touches_makeDirs (hx.grounded hw) _ _ _ hmade
  rw [(houtputs o ho).joinText] at hstep
  obtain ⟨-, hwrote⟩ := wrote_step_below (hbefore.grounded (hx.grounded hw))
    (hbefore.leads (hx.leads hdir)) (houtputs o ho).ne_nil (houtputs o ho).up_not_mem hstep
  exact ⟨hwrote.after hbefore, trivial, trivial⟩

namespace Compiler

variable {c : Compiler} {tools : Tools} {policy : Policy} {options : CompilerOptions}
  {files : List (String × String)} {purpose : Purpose} {run : CompilerRun} {root : Path}
  {ds : List Diagnostic}

theorem still_interpret (command : List String) (ending : Int × String × String)
    (staged : List (String × String)) : (interpret command ending staged).Still := by
  refine (still_look _).bind fun reading => ?_
  refine (Still.forEach (fun _ => still_log _ _) _).bind fun _ => ?_
  split
  · exact still_fail _
  · exact still_pure _

/-- **What opening the source root did**: the directories above it were made, and the last of them
is found there. -/
theorem of_run_openRoot_eq_ok {dir : Place} (h : (openRoot options).run w = (.ok (root, dir), v)) :
    options.path .rootDir = .ok root ∧
      (change fun t cwd => t.makeDirs cwd root.parent).run w = (.ok (), v) ∧
      ∃ found, v.tree.locate v.cwd root.parent = .ok (dir, found) := by
  obtain ⟨root', u₁, hlook, h⟩ := of_run_bind_eq_ok h
  obtain ⟨_, u₂, hmake, h⟩ := of_run_bind_eq_ok h
  obtain ⟨⟨dir', found⟩, u₃, hlocate, h⟩ := of_run_bind_eq_ok h
  rw [run_pure, Prod.mk.injEq, Except.ok.injEq, Prod.mk.injEq] at h
  obtain ⟨⟨rfl, rfl⟩, rfl⟩ := h
  obtain ⟨hpath, rfl⟩ := of_run_look_eq_ok hlook
  obtain ⟨hplace, rfl⟩ := of_run_look_eq_ok hlocate
  exact ⟨hpath, hmake, found, hplace⟩

/-- Opening the source root touches no file, and finds the directory above it. -/
theorem of_run_openRoot (hw : w.Grounded) (hroot : options.path .rootDir = .ok root)
    (hplace : w.Leads root.parent place) {found : Path} {dir : Place}
    (h : (openRoot options).run w = (.ok (found, dir), v)) :
    w.SameOutside ∅ v ∧ root = found ∧ place = dir := by
  obtain ⟨hpath, hmake, _, hlocate⟩ := of_run_openRoot_eq_ok h
  obtain rfl := Except.ok.inj (hroot.symm.trans hpath)
  have hsame : w.SameOutside ∅ v := touches_makeDirs hw _ _ _ hmake
  exact ⟨hsame, rfl, ((hsame.leads hplace).of_locate hlocate).symm⟩

/-- **An execution that succeeded**: the compiler exited, and what it put out was written. -/
theorem of_run_execute {ending : Int × String × String}
    (h : (c.execute tools purpose run).run w = (.ok ending, v)) :
    ∃ code stdout stderr outputs u, tools.compiler w run = .exits code stdout stderr outputs ∧
      w.SameOutside ∅ u ∧ .compiled run ∈ u.events ∧
      (leaveOutputs purpose outputs).run u = (.ok (), v) := by
  obtain ⟨w', u₁, hget, h⟩ := of_run_bind_eq_ok h
  rw [run_get, Prod.mk.injEq, Except.ok.injEq] at hget
  obtain ⟨rfl, rfl⟩ := hget
  obtain ⟨_, u₂, hnote, h⟩ := of_run_bind_eq_ok h
  have hsame : w.SameOutside ∅ u₂ := (still_note _).touches _ _ hnote
  rw [run_note, Prod.mk.injEq] at hnote
  split at h
  · rw [run_fail] at h
    simp at h
  · rw [run_fail] at h
    simp at h
  · rename_i code stdout stderr outputs hexits
    obtain ⟨_, u₃, hleave, h⟩ := of_run_bind_eq_ok h
    rw [run_pure, Prod.mk.injEq] at h
    rw [h.2] at hleave
    refine ⟨code, stdout, stderr, outputs, u₂, hexits, hsame, ?_, hleave⟩
    rw [← hnote.2]
    exact List.mem_append_right _ List.mem_cons_self

/-- **A run of the compiler**, up to its execution and from there on: all that was staged goes away
with the temporary directory. -/
theorem of_run (hw : w.Grounded) (hroot : options.path .rootDir = .ok root)
    (hplace : w.Leads root.parent place) (hfiles : ∀ f ∈ files, IsSource root f.1)
    (h : (c.run tools policy options files purpose).run w = (.ok ds, v)) :
    ∃ name u run x ending y, w.SameOutside ∅ u ∧ u.tree.get? (place ++ [name]) = none ∧
      (u.withDirectory (place ++ [name])).SameOutside {q | place ++ [name] <+: q} x ∧
      run.phase = phaseFor options purpose ∧ run.Stages root files ∧
      (c.execute tools purpose run).run x = (.ok ending, y) ∧
      ({ y with tree := y.tree.erase (place ++ [name]) } : Workspace).SameOutside ∅ v := by
  obtain ⟨⟨root', dir⟩, u, hopen, hrest⟩ := of_run_bind_eq_ok h
  obtain ⟨hbefore, rfl, rfl⟩ := of_run_openRoot hw hroot hplace hopen
  obtain ⟨⟨command, ending, staged⟩, u', htemporary, hinterpret⟩ := of_run_bind_eq_ok hrest
  obtain ⟨y, hstaged, rfl⟩ := of_run_withTemporary htemporary
  obtain ⟨⟨run, staged'⟩, x, hstage, hexecute⟩ := of_run_bind_eq_ok hstaged
  obtain ⟨ending', y', hexecuted, hpure⟩ := of_run_bind_eq_ok hexecute
  rw [run_pure, Prod.mk.injEq] at hpure
  obtain rfl := hpure.2
  have hafter : Workspace.SameOutside ∅ _ v := (still_interpret _ _ _).touches _ _ hinterpret
  have hu := hbefore.grounded hw
  have hdirectory := (hbefore.leads hplace).directory hu
  have hfree := temporaryPlace_free u.tree place ".dnt-staging-"
  obtain ⟨hmade, hleads⟩ := withDirectory_leads hdirectory ((hbefore.leads hplace).up_not_mem hu)
    hfree (freshName_ne_up _ (by decide))
  obtain ⟨hbelow, hphase, hstages⟩ := of_run_stage (hmade.grounded hu) hleads hfiles hstage
  exact ⟨_, u, run, x, ending', y', hbefore, hfree, hbelow, hphase, hstages, hexecuted, hafter⟩

/-- **A run that checks** touches no file. -/
theorem touches_check (hw : w.Grounded) (hroot : options.path .rootDir = .ok root)
    (hplace : w.Leads root.parent place) (hfiles : ∀ f ∈ files, IsSource root f.1) :
    (c.run tools policy options files .check).Touches ∅ w := by
  intro ds v h
  obtain ⟨name, u, run, x, ending, y, hbefore, hfree, hbelow, -, -, hexecute, hafter⟩ :=
    of_run hw hroot hplace hfiles h
  have hdirectory := (hbefore.leads hplace).directory (hbefore.grounded hw)
  obtain ⟨-, -, -, outputs, x', -, hexecuted, -, hleave⟩ := of_run_execute hexecute
  have hleave' : (pure () : Action Unit).run x' = (.ok (), y) := hleave
  rw [run_pure, Prod.mk.injEq] at hleave'
  obtain rfl := hleave'.2
  have hsame := FileTree.sameOutside_temporary (by simp) hfree
    (hbelow.trans hexecuted.of_empty).tree
  have hnothing : {q | q ∈ {q | place ++ [name] <+: q} ∧ ¬ place ++ [name] <+: q} = (∅ : Set Place) :=
    Set.eq_empty_of_forall_notMem fun q hq => hq.2 hq.1
  rw [hnothing, Set.empty_union, FileTree.above_eq_empty hdirectory] at hsame
  have hgone : u.SameOutside ∅ { x' with tree := x'.tree.erase (place ++ [name]) } :=
    ⟨hexecuted.cwd.trans hbelow.cwd, hsame, hbelow.events.trans hexecuted.events⟩
  exact (hbefore.trans hgone).trans hafter

/-- **A run that emits** leaves what the compiler put out, and nothing else. -/
theorem of_run_emit (hw : w.Grounded) (hroot : options.path .rootDir = .ok root)
    (hplace : w.Leads root.parent place) (hfiles : ∀ f ∈ files, IsSource root f.1)
    {only : Bool} {scratch : Path} {dir : Place} (hscratch : w.Leads scratch dir)
    (hapart : ¬ dir <+: place)
    (h : (c.run tools policy options files (.emit only (some scratch))).run w = (.ok ds, v)) :
    ∃ run u code stdout stderr outputs, run.phase = phaseFor options (.emit only (some scratch)) ∧
      run.Stages root files ∧ tools.compiler u run = .exits code stdout stderr outputs ∧
      ((∀ o ∈ outputs, IsBelow o.1) → .compiled run ∈ v.events ∧
        w.Wrote (outputs.map fun o => (dir ++ (Path.ofString o.1).parts, o.2)) v) := by
  obtain ⟨name, u, run, x, ending, y, hbefore, hfree, hbelow, hphase, hstages, hexecute, hafter⟩ :=
    of_run hw hroot hplace hfiles h
  have hu := hbefore.grounded hw
  have hdirectory := (hbefore.leads hplace).directory hu
  obtain ⟨code, stdout, stderr, outputs, x', hexits, hexecuted, hevent, hleave⟩ :=
    of_run_execute hexecute
  have hmade : u.SameOutside ∅ (u.withDirectory (place ++ [name])) :=
    ⟨rfl, FileTree.sameOutside_insert_directory hdirectory hfree, List.prefix_refl _⟩
  have hbefore' : u.SameOutside {q | place ++ [name] <+: q} x' :=
    (hmade.of_empty.trans hbelow).trans hexecuted.of_empty
  have hx' := hbefore'.grounded hu
  have hdir := (hbefore.leads hscratch).directory hu
  -- the directory that is emitted to was there before the temporary one, and is not above it
  have hother : ∀ parts, ¬ place ++ [name] <+: dir ++ parts := by
    intro parts hpre
    rcases List.prefix_or_prefix_of_prefix hpre (List.prefix_append dir parts) with hle | hle
    · rw [FileTree.get?_eq_none_below hfree hle] at hdir
      simp at hdir
    · rcases List.prefix_concat_iff.1 hle with heq | hle
      · rw [heq, hfree] at hdir
        simp at hdir
      · exact hapart hle
  refine ⟨run, x, code, stdout, stderr, outputs, hphase, hstages, hexits, fun houtputs => ?_⟩
  have hwrote := of_run_writeOutputs hx' (hbefore'.leads (hbefore.leads hscratch)) houtputs hleave
  have htree := FileTree.wrote_temporary hdirectory hfree
    (hbelow.trans hexecuted.of_empty).tree hwrote.tree (by
      intro q hq
      rw [List.map_map, List.mem_map] at hq
      obtain ⟨o, -, rfl⟩ := hq
      exact hother _)
  have hall : u.Wrote (outputs.map fun o => (dir ++ (Path.ofString o.1).parts, o.2))
      { y with tree := y.tree.erase (place ++ [name]) } :=
    ⟨hwrote.cwd.trans hbefore'.cwd, htree, hbefore'.events.trans hwrote.events⟩
  exact ⟨(hwrote.events.trans hafter.events).subset hevent, (hall.after hbefore).before hafter⟩

end Compiler

end DenoPackager
