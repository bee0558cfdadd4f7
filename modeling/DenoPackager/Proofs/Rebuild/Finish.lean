import DenoPackager.Proofs.Files.CleanUp
import DenoPackager.Proofs.Rebuild.Stages

/-!
# Files that are removed once more

A build ends with the removal of the files that belong to its tests. They stand on the grounds of
the package, so nothing else goes away, and where the same is seen in a tree the same files are
removed.

## Main definitions

* `Leftovers.nothing`: no leftovers.
* `Action.Repeats`: actions that do the same where the same is seen.
* `Workspace.Cleared`: workspaces in which some of what stood on the grounds of a site is gone.

## Main results

* `Build.repeats_finish`, `Build.cleared_of_run_finish`: the end of a build.
-/

namespace DenoPackager

open DenoPackager.Action

/-- **No leftovers**: a tree that is laid over them is the same tree to look at. -/
def Leftovers.nothing : Leftovers := fun _ => none

/-- Nothing stands in no way. -/
theorem Leftovers.fits_nothing (t : FileTree) : nothing.Fits t where
  directories _ _ _ := nofun
  files _ _ := nofun

/-- **The same files can be removed** where the same is seen. -/
theorem FileTree.Over.remove {t u v : FileTree} {cwd p : Path} {cs : List String} {name : String}
    (h : t.Over .nothing u) (hproper : p.Proper) (hparts : p.parts = cs ++ [name])
    (hname : name ≠ Path.up) (hremove : t.remove cwd p.text = .ok v) :
    ∃ v', u.remove cwd p.text = .ok v' ∧ v.Over .nothing v' := by
  obtain ⟨hnul, dir, henter, hthere, rfl⟩ := (remove_text_eq_ok_iff hproper hparts hname).1 hremove
  obtain ⟨content, hfile⟩ := Option.isSome_iff_exists.1 hthere
  refine ⟨u.erase (dir ++ [name]), (remove_text_eq_ok_iff hproper hparts hname).2
    ⟨hnul, dir, enter_mono (fun q => h.get?_eq) henter, ?_, rfl⟩, h.erase (by simp) fun _ _ => rfl⟩
  rw [h.file?_eq hfile]
  rfl

namespace Action

variable {α β : Type} {w : Workspace} {m : Action α} {f : α → Action β} {s : Site}

/-- **An action that does the same where the same is seen**, after it was done in `w`. -/
def Repeats (w : Workspace) (m : Action α) : Prop :=
  ∀ a v, m.run w = (.ok a, v) → ∀ w', w.Over .nothing w' →
    ∃ v', m.run w' = (.ok a, v') ∧ v.Over .nothing v'

/-- What can be done once more over leftovers can be done over none. -/
theorem Redoes.repeats (h : m.Redoes s .nothing w) : m.Repeats w :=
  fun a v hr => h.again a v hr (Leftovers.fits_nothing v.tree)

theorem repeats_pure (a : α) : (pure a : Action α).Repeats w := by
  intro b v hr w' hw'
  rw [run_pure, Prod.mk.injEq] at hr
  exact ⟨w', hr.1 ▸ rfl, hr.2 ▸ hw'⟩

theorem repeats_log (level : Level) (message : String) : (log level message).Repeats w :=
  (redoes_log (s := ⟨∅, ∅⟩) level message).repeats

/-- **One action after the other.** -/
theorem Repeats.bind (hm : m.Repeats w) (hf : ∀ a v, m.run w = (.ok a, v) → (f a).Repeats v) :
    (m >>= f).Repeats w := by
  intro b u hr w' hw'
  obtain ⟨a, v, ha, hb⟩ := of_run_bind_eq_ok hr
  obtain ⟨v', ha', hv'⟩ := hm a v ha w' hw'
  obtain ⟨u', hb', hu'⟩ := hf a v ha b u hb v' hv'
  exact ⟨u', by rw [run_bind_of_ok ha', hb'], hu'⟩

theorem Repeats.forEach {g : α → Action Unit} {as : List α} (h : ∀ a ∈ as, ∀ v, (g a).Repeats v) :
    (forEach g as).Repeats w := by
  induction as generalizing w with
  | nil => exact repeats_pure ()
  | cons a as ih =>
    refine (h a List.mem_cons_self w).bind fun _ v _ => ih fun b hb => ?_
    exact h b (List.mem_cons_of_mem a hb)

end Action

/-- **Workspaces in which some of what stood at some places is gone**, and nothing else is
different. -/
structure Workspace.Cleared (s : Set Place) (w v : Workspace) : Prop where
  cwd : v.cwd = w.cwd
  kept : ∀ q, v.tree.get? q = w.tree.get? q ∨ q ∈ s ∧ v.tree.get? q = none

namespace Workspace

variable {s : Set Place} {w v u : Workspace}

theorem SameFiles.cleared (h : w.SameFiles v) : Cleared s w v :=
  ⟨h.cwd, fun q => .inl (by rw [h.tree])⟩

theorem Cleared.trans (h : Cleared s w v) (h' : Cleared s v u) : Cleared s w u where
  cwd := h'.cwd.trans h.cwd
  kept q := by
    obtain heq | hgone := h'.kept q
    · rw [heq]
      exact h.kept q
    · exact .inr hgone

end Workspace

namespace Writer

variable {policy : Policy} {package : Path} {dir : Place} {name : String} {names : List String}
  {w v : Workspace} {s : Set Place}

/-- **Removing a file** where the same is seen. -/
theorem repeats_remove (hproper : package.Proper) (hname : IsDown name) :
    (remove policy (package.joinText name).text).Repeats w := by
  have hcheck : (policy.checkWrite (package.joinText name).text).Repeats w :=
    (Policy.redoes_checkWrite (s := ⟨∅, ∅⟩) _).repeats
  refine hcheck.bind fun _ v _ => (repeats_log _ _).bind fun _ u _ => Repeats.bind ?_
    fun _ x _ => (redoes_note (s := ⟨∅, ∅⟩) _).repeats
  intro a x hr u' hu'
  obtain ⟨t, hremove, rfl⟩ := of_run_step_eq_ok hr
  obtain ⟨rest, last, hrel⟩ : ∃ rest last, (Path.ofString name).parts = rest ++ [last] :=
    ⟨_, _, (List.dropLast_concat_getLast hname.ne_nil).symm⟩
  have hup := hname.up_not_mem
  rw [hrel, List.mem_append, List.mem_singleton, not_or] at hup
  have hparts : (package.joinText name).parts = package.parts ++ rest ++ [last] := by
    rw [hname.joinText, hrel, List.append_assoc]
  have hproper' : (package.joinText name).Proper := hproper.join (.ofString name)
  obtain ⟨t', hremove', ht'⟩ := hu'.tree.remove hproper' hparts (Ne.symm hup.2) hremove
  refine ⟨{ u' with tree := t' }, run_step_of_ok ?_,
    hu'.cwd, ht', hu'.created, hu'.written, hu'.events⟩
  rw [hu'.cwd, hremove']

theorem repeats_removeAll (hproper : package.Proper) (hnames : ∀ name ∈ names, IsDown name) :
    (removeAll policy package names).Repeats w :=
  (Repeats.forEach fun name hname _ => repeats_remove hproper (hnames name hname)).bind
    fun _ _ _ => repeats_log _ _

/-- **Removing files** clears their places only. -/
theorem cleared_of_run_removeAll (hproper : package.Proper) (hdir : w.Leads package dir)
    (hnames : ∀ name ∈ names, IsDown name)
    (hs : ∀ name ∈ names, ∀ q, dir ++ (Path.ofString name).parts <+: q → q ∈ s)
    (h : (removeAll policy package names).run w = (.ok (), v)) : w.Cleared s v := by
  obtain ⟨_, u, hall, hlog⟩ := of_run_bind_eq_ok h
  refine Workspace.Cleared.trans ?_ (still_log _ _ _ _ _ hlog).cleared
  clear h hlog
  induction names generalizing w with
  | nil =>
    have hnil : (pure () : Action Unit).run w = (.ok (), u) := hall
    rw [run_pure, Prod.mk.injEq] at hnil
    exact hnil.2 ▸ (Workspace.SameFiles.refl w).cleared
  | cons name names ih =>
    obtain ⟨_, x, hfirst, hrest⟩ := of_run_bind_eq_ok hall
    rw [List.forall_mem_cons] at hnames hs
    obtain ⟨hthere, htree, hcwd, -⟩ := erased_of_run_remove hproper hdir hnames.1 hfirst
    have hremoved := of_run_remove hproper hdir hnames.1 hfirst
    have hne : dir ++ (Path.ofString name).parts ≠ [] := by
      simp [hnames.1.ne_nil]
    refine Workspace.Cleared.trans ⟨hcwd, fun q => ?_⟩
      (ih (hremoved.same.leads hdir) hnames.2 hs.2 hrest)
    rw [htree, FileTree.get?_erase hne]
    by_cases hq : dir ++ (Path.ofString name).parts <+: q
    · rw [if_pos hq]
      exact .inr ⟨hs.1 q hq, rfl⟩
    · rw [if_neg hq]
      exact .inl rfl

end Writer

namespace Build

variable {b : BuildTools} {options : BuildOptions} {output : TransformOutput} {dir : Place}
  {w v : Workspace} {r : BuildResult}

/-- **The end of a build** where the same is seen. -/
theorem repeats_finish (hproper : options.outDir.Proper)
    (hbelow : ∀ f ∈ output.allFiles, IsBelow f.path) : (finish b options output).Repeats w := by
  have hclean : (onlyIf (options.test && !options.keepTestFiles)
      (Writer.removeAll b.policy options.outDir (TestLauncher.artifacts output))).Repeats w := by
    rw [onlyIf]
    split
    · exact Writer.repeats_removeAll hproper fun _ => TestLauncher.isDown_of_mem_artifacts hbelow
    · exact repeats_pure ()
  refine hclean.bind fun _ v _ => (repeats_log _ _).bind fun _ u _ => ?_
  intro a x hr u' hu'
  obtain ⟨u₁, x₁, hget, hr⟩ := of_run_bind_eq_ok hr
  rw [run_get, Prod.mk.injEq, Except.ok.injEq] at hget
  obtain ⟨rfl, rfl⟩ := hget
  rw [run_pure, Prod.mk.injEq, Except.ok.injEq] at hr
  obtain ⟨rfl, rfl⟩ := hr
  refine ⟨u', ?_, hu'⟩
  rw [run_bind_of_ok (run_get u'), run_pure, hu'.written]

/-- **The end of a build** removes nothing that is not on the grounds of the package. -/
theorem cleared_of_run_finish (hproper : options.outDir.Proper)
    (hdir : w.Leads options.outDir dir) (hbelow : ∀ f ∈ output.allFiles, IsBelow f.path)
    (h : (finish b options output).run w = (.ok r, v)) :
    w.Cleared (Site.package dir).grounds v := by
  obtain ⟨_, u, hclean, h⟩ := of_run_bind_eq_ok h
  have hend : u.SameFiles v := by
    refine ((still_log _ _).bind fun _ => still_get.bind fun _ => still_pure _) _ _ _ h
  refine Workspace.Cleared.trans ?_ hend.cleared
  cases hwanted : (options.test && !options.keepTestFiles) with
  | false =>
    rw [hwanted, onlyIf, if_neg (by decide), run_pure, Prod.mk.injEq] at hclean
    exact hclean.2 ▸ (Workspace.SameFiles.refl w).cleared
  | true =>
    rw [hwanted] at hclean
    refine Writer.cleared_of_run_removeAll hproper hdir
      (fun _ => TestLauncher.isDown_of_mem_artifacts hbelow) (fun name hname q hq => ?_) hclean
    -- every one of these files stands below a name that a build makes
    have hplace : dir ++ (Path.ofString name).parts ∈ TestLauncher.places output dir :=
      List.mem_map_of_mem hname
    obtain heq | ⟨script, -, pass, -, heq⟩ := TestLauncher.mem_places.1 hplace
    · exact ⟨TestLauncher.fileName, by decide, heq ▸ hq⟩
    · refine ⟨pass.directory, pass.directory_mem, List.IsPrefix.trans ?_ hq⟩
      rw [← heq]
      exact (List.prefix_append_right_inj dir).2 ⟨(Path.ofString script).parts, rfl⟩

end Build

end DenoPackager
