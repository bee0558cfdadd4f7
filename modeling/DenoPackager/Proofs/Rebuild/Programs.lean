import DenoPackager.Proofs.Confinement.Denial
import DenoPackager.Proofs.Rebuild.Redo

/-!
# Programs that are run once more

The package manager and the compiler are steady if leftovers in the package make no difference to
them. Then a command can be run once more, and so can the compiler: its sources are staged at the
same place again, and it puts out the same files.

## Main definitions

* `Tools.Steady`: external programs to which leftovers make no difference.
* `Workspace.Yard`: directories that are part of a site, with all that is below them.
* `Compiler.Ready`: workspaces in which the compiler can be run once more.

## Main results

* `PackageManager.redoes_run`: a command of the package manager.
* `Compiler.redoes_run`: a run of the compiler.
-/

namespace DenoPackager

open DenoPackager.Action
open DenoPackager.Path (follow)

/-- **External programs to which leftovers make no difference**, as long as they are in some places:
what a program does is told by everything else, and the compiler writes nowhere but below the
directory that it emits to. -/
structure Tools.Steady (places : Set Place) (tools : Tools) : Prop where
  packageManager : ∀ left : Leftovers, (∀ q, left q ≠ none → q ∈ places) → ∀ w w',
    w.Over left w' → tools.packageManager w' = tools.packageManager w
  compiler : ∀ left : Leftovers, (∀ q, left q ≠ none → q ∈ places) → ∀ w w',
    w.Over left w' → tools.compiler w' = tools.compiler w
  below : ∀ w run code stdout stderr outputs,
    tools.compiler w run = .exits code stdout stderr outputs → ∀ o ∈ outputs, IsDown o.1

/-- **A yard**: a directory that is part of a site, with all that is below it. -/
structure Workspace.Yard (s : Site) (w : Workspace) (place : Place) : Prop where
  directory : w.tree.get? place = some .directory
  up_not_mem : Path.up ∉ place
  ground : ∀ q, place <+: q → q ∈ s.grounds

variable {s : Site} {left : Leftovers} {w v : Workspace} {place dir : Place} {tools : Tools}
  {policy : Policy} {places : Set Place}

namespace Workspace

theorem Grows.yard (h : w.Grows s v) {s' : Site} (hyard : w.Yard s' place) : v.Yard s' place :=
  { hyard with directory := h.tree.directories _ hyard.directory }

theorem Yard.leads (h : w.Yard s place) : w.Leads ⟨.single, place⟩ place :=
  leads_place h.directory h.up_not_mem

/-- **A directory for temporary work** is a yard. -/
theorem yard_withDirectory (hne : place ≠ []) (hup : Path.up ∉ place) :
    (w.withDirectory place).Yard (s.withGround place) place where
  directory := FileTree.get?_insert_self hne
  up_not_mem := hup
  ground _ hq := .inr hq

/-- **A file can be written below a yard.** -/
theorem Yard.admits (h : w.Yard s place) {rel : List String} (hne : rel ≠ [])
    (hup : Path.up ∉ rel) : w.Admits s ⟨.single, place ++ rel⟩ where
  way pre hpre := by
    have hstart : (⟨.single, place ++ rel⟩ : Path).start w.cwd = [] := rfl
    have hparent : (⟨.single, place ++ rel⟩ : Path).parent.parts = place ++ rel.dropLast :=
      List.dropLast_append_of_ne_nil hne
    rw [hparent] at hpre
    have hpreUp : Path.up ∉ pre := by
      intro hmem
      rcases List.mem_append.1 (hpre.subset hmem) with hmem | hmem
      · exact h.up_not_mem hmem
      · exact hup ((List.dropLast_sublist rel).subset hmem)
    rw [hstart, Path.follow_of_not_mem hpreUp, List.nil_append]
    rcases List.prefix_or_prefix_of_prefix hpre (List.prefix_append place _) with habove | hbelow
    · exact .inr (.inr (FileTree.directory_above h.directory habove))
    · exact .inr (.inl (h.ground pre hbelow))
  ground := by
    have hall : Path.up ∉ place ++ rel := by
      rw [List.mem_append, not_or]
      exact ⟨h.up_not_mem, hup⟩
    have hstart : (⟨.single, place ++ rel⟩ : Path).start w.cwd = [] := rfl
    rw [hstart, Path.follow_of_not_mem hall, List.nil_append]
    exact h.ground _ (List.prefix_append place rel)

/-- More ground is no hindrance. -/
theorem Admits.withGround {path : Path} (h : w.Admits s path) (place : Place) :
    w.Admits (s.withGround place) path where
  way pre hpre := (h.way pre hpre).imp_right (Or.imp_left .inl)
  ground := .inl h.ground

end Workspace

namespace Action

/-- **Putting a file at a path** that the site admits, with its directory. -/
theorem redoes_put (hw : w.Grounded) {path : Path} (hpath : w.Admits s path)
    {content : ByteArray} : (do
      change fun t cwd => t.makeDirs cwd path.parent
      step fun t cwd => t.write cwd path content).Redoes s left w :=
  (redoes_makeDirs hw hpath.way).bind fun _ _ _ hv =>
    redoes_write (hv.grounded hw) (hv.admits hpath).ground

end Action

/-! ### The package manager -/

namespace PackageManager

variable (m : PackageManager) (args : List String)

theorem redoes_start (hsteady : tools.Steady places) (hleft : ∀ q, left q ≠ none → q ∈ places) :
    (m.start tools policy args).Redoes s left w := by
  refine (Policy.redoes_checkRun _).bind fun _ _ _ _ => (redoes_log _ _).bind fun _ u _ _ => ?_
  refine redoes_get_bind (fun u' hu => ?_) ?_
  · simp only [hsteady.packageManager left hleft u u' hu]
  · refine (redoes_note _).bind fun _ _ _ _ => ?_
    cases tools.packageManager u (m.commandFor tools args) with
    | missing => exact (redoes_note _).bind fun _ _ _ _ => redoes_fail _
    | exits code => exact redoes_pure _

theorem redoes_finish (c : StartedCommand) : (m.finish c).Redoes s left w := by
  refine (redoes_note _).bind fun _ _ _ _ => ?_
  split
  · exact redoes_pure ()
  · exact redoes_fail _

/-- **A command of the package manager.** -/
theorem redoes_run (hsteady : tools.Steady places) (hleft : ∀ q, left q ≠ none → q ∈ places) :
    (m.run tools policy args).Redoes s left w :=
  (m.redoes_start args hsteady hleft).bind fun c _ _ _ => m.redoes_finish c

end PackageManager

/-! ### The compiler -/

/-- **Purposes that stay in a yard**: what is emitted goes there. -/
def Purpose.StaysIn (s : Site) (w : Workspace) (purpose : Purpose) : Prop :=
  ∀ only path, purpose = .emit only (some path) →
    ∃ place, path = ⟨.single, place⟩ ∧ w.Yard s place

namespace Compiler

variable {c : Compiler} {options : CompilerOptions} {root : Path}
  {files : List (String × String)} {purpose : Purpose} {run : CompilerRun}

theorem redoes_stageFile (hw : w.Grounded) (hyard : w.Yard s place) {path text : String}
    (hsource : IsSource root path) :
    (stageFile ⟨.single, place⟩ root path text).Redoes s left w := by
  rw [stageFile, hsource.below]
  have hadmits : w.Admits s ⟨.single, place ++ sourceParts root path⟩ :=
    hyard.admits hsource.ne_nil hsource.up_not_mem
  refine (redoes_makeDirs hw hadmits.way).bind fun _ v _ hv => ?_
  refine (redoes_write (hv.grounded hw) ?_).bind fun _ _ _ _ => redoes_pure _
  exact (hv.admits hadmits).ground

/-- **A source that is staged** is read, so leftovers make no difference to its text. -/
theorem stagedText_over (hw : w.Grounded) {path : String} (hsource : IsSource root path)
    (hnames : w.Names ⟨.single, place ++ sourceParts root path⟩ (place ++ sourceParts root path))
    (hfile : (w.tree.file? (place ++ sourceParts root path)).isSome) {w' : Workspace}
    (hw' : w.Over left w') :
    stagedText w' ⟨.single, place⟩ (sourceName root path) =
      stagedText w ⟨.single, place⟩ (sourceName root path) := by
  obtain ⟨content, hcontent⟩ := Option.isSome_iff_exists.1 hfile
  have hread := hnames.readBytes_eq_ok_iff.2 hcontent
  rw [stagedText, stagedText, hsource.joinText, hread, hw'.cwd,
    hw'.tree.readBytes hw.directory hread]

/-- **Staging a run**: the same sources are put at the same places, and are found there. -/
theorem redoes_stage (hw : w.Grounded) (hyard : w.Yard s place)
    (hfiles : ∀ f ∈ files, IsSource root f.1) :
    (c.stage tools policy options root files purpose ⟨.single, place⟩).Redoes s left w := by
  refine Redoes.bind (Redoes.mapEach fun f hf v hv =>
    redoes_stageFile (hv.grounded hw) (hv.yard hyard) (hfiles f hf)) fun staged v hstaged hv => ?_
  obtain ⟨hwrote, hnames, hnamed⟩ := of_run_stageFiles hw hyard.leads hfiles hstaged
  dsimp only
  generalize hsources : ((staged.map Prod.fst).eraseDups).mergeSort _ = sources
  have hmem : ∀ s ∈ sources, ∃ f ∈ files, s = sourceName root f.1 := by
    intro s hs
    rw [← hsources, List.mem_mergeSort, List.mem_eraseDups, hnamed, List.mem_map] at hs
    exact hs.imp fun f hf => ⟨hf.1, hf.2.symm⟩
  have hwv := hv.grounded hw
  have hyardv := hv.yard hyard
  split
  · exact redoes_fail _
  · have hconfig : v.Admits s ⟨.single, place ++ ["tsconfig.json"]⟩ :=
      hyardv.admits (by simp) (by decide)
    refine (redoes_write hwv hconfig.ground).bind fun _ u _ hu => ?_
    refine (Policy.redoes_checkRun _).bind fun _ x _ hx => ?_
    refine (redoes_log _ _).bind fun _ y _ hy => ?_
    have hgrows := (hu.trans hx).trans hy
    have htext : ∀ source ∈ sources, ∀ y', y.Over left y' →
        stagedText y' ⟨.single, place⟩ source = stagedText y ⟨.single, place⟩ source := by
      intro source hmemSource y' hy'
      obtain ⟨f, hf, rfl⟩ := hmem source hmemSource
      obtain ⟨_, -, hfile⟩ := hwrote.tree.written _ (List.mem_map_of_mem (List.mem_map_of_mem hf))
      refine stagedText_over (hgrows.grounded hwv) (hfiles f hf)
        (hgrows.names (hnames f hf)) (hgrows.tree.files _ ?_) hy'
      rw [hfile]
      rfl
    refine redoes_get_bind (fun y' hy' => ?_) (redoes_pure _)
    have hall : (sources.map fun source => (source, stagedText y' ⟨.single, place⟩ source)) =
        sources.map fun source => (source, stagedText y ⟨.single, place⟩ source) :=
      List.map_congr_left fun source hsource => by rw [htext source hsource y' hy']
    simp only [hall]

/-- **What the compiler puts out** is put into the yard again. -/
theorem redoes_leaveOutputs (hw : w.Grounded) (hpurpose : purpose.StaysIn s w)
    {outputs : List (String × ByteArray)} (houtputs : ∀ o ∈ outputs, IsDown o.1) :
    (leaveOutputs purpose outputs).Redoes s left w := by
  cases purpose with
  | check => exact redoes_pure ()
  | emit only scratch =>
    cases scratch with
    | none => exact redoes_pure ()
    | some scratch =>
      obtain ⟨place, rfl, hyard⟩ := hpurpose only scratch rfl
      refine Redoes.forEach fun o ho v hv => ?_
      have hdown := houtputs o ho
      rw [hdown.joinText]
      exact redoes_put (hv.grounded hw) ((hv.yard hyard).admits hdown.ne_nil hdown.up_not_mem)

/-- **Executing** the compiler. -/
theorem redoes_execute (hsteady : tools.Steady places) (hleft : ∀ q, left q ≠ none → q ∈ places)
    (hw : w.Grounded) (hpurpose : purpose.StaysIn s w) :
    (c.execute tools purpose run).Redoes s left w := by
  refine redoes_get_bind (fun w' hw' => ?_) ?_
  · simp only [hsteady.compiler left hleft w w' hw']
  refine (redoes_note _).bind fun _ v _ hv => ?_
  cases hout : tools.compiler w run with
  | missing => exact redoes_fail _
  | timesOut => exact redoes_fail _
  | exits code stdout stderr outputs =>
    have hstays : purpose.StaysIn s v := fun only path heq =>
      (hpurpose only path heq).imp fun _ h => ⟨h.1, hv.yard h.2⟩
    exact (redoes_leaveOutputs (hv.grounded hw) hstays
      (hsteady.below _ _ _ _ _ _ hout)).bind fun _ _ _ _ => redoes_pure _

theorem redoes_interpret (command : List String) (ending : Int × String × String)
    (staged : List (String × String)) : (interpret command ending staged).Redoes s left w := by
  refine (redoes_look_const _).bind fun reading _ _ _ => ?_
  refine (Redoes.forEach fun _ _ _ _ => redoes_log _ _).bind fun _ _ _ _ => ?_
  split
  · exact redoes_fail _
  · exact redoes_pure _

/-- The name of a staging directory that nothing stands in the way of. -/
def stagingName : String := ".dnt-staging-" ++ "X"

/-- **Workspaces in which the compiler can be run once more** in a package: there is room for a
staging directory, and neither leftovers nor the site are in its place. -/
structure Ready (s : Site) (left : Leftovers) (dir : Place) (w : Workspace) : Prop where
  grounded : w.Grounded
  free : w.tree.get? (dir ++ [stagingName]) = none
  apart : ∀ q, dir ++ [stagingName] <+: q → q ∉ s.ways ∧ q ∉ s.grounds ∧ left q = none

theorem Ready.of_grows (h : Ready s left dir w) (hgrows : w.Grows s v) : Ready s left dir v where
  grounded := hgrows.grounded h.grounded
  free := by
    obtain ⟨hways, hgrounds, -⟩ := h.apart _ (List.prefix_refl _)
    rw [hgrows.tree.outside _ hways hgrounds, h.free]
  apart := h.apart

/-- A name that nothing stands in the way of is taken for a temporary directory. -/
theorem temporaryPlace_of_free {t : FileTree} (start : String)
    (h : t.get? (dir ++ [start ++ "X"]) = none) :
    temporaryPlace t dir start = dir ++ [start ++ "X"] := by
  have hfresh : start ++ "X" ∉ t.childNames dir := by
    rw [FileTree.mem_childNames, h]
    simp
  simp only [temporaryPlace, freshName, if_neg hfresh]

/-- **Opening the root** of the sources: its directory is there, and is found at the same place. -/
theorem redoes_openRoot (hw : w.Grounded) (hroot : options.path .rootDir = .ok root)
    (hdir : w.Leads root.parent dir) : (openRoot options).Redoes s left w := by
  refine (redoes_look_const _).bind fun found v hlook hv => ?_
  obtain ⟨hfound, rfl⟩ := of_run_look_eq_ok hlook
  obtain rfl : root = found := Except.ok.inj (hroot.symm.trans hfound)
  have hstart := FileTree.directory_start hw.directory root.parent
  refine (redoes_makeDirs hw fun pre hpre =>
    .inr (.inr (FileTree.directory_of_enter_prefix hstart hdir hpre))).bind fun _ u _ hu => ?_
  have hwu := hu.grounded hw
  refine (redoes_look fun a ha u' hu' => ?_).bind fun _ _ _ _ => redoes_pure _
  obtain ⟨place, n⟩ := a
  obtain rfl : place = dir :=
    (FileTree.follow_of_locate ha).trans (FileTree.follow_of_enter (hu.leads hdir)).symm
  have hn := FileTree.get?_of_locate hwu.directory ha
  rw [(hu.leads hdir).directory hwu] at hn
  rw [hu'.tree.locate hwu.directory ha, hn, Option.some_or]

/-- **A run of the compiler** over sources in a package. -/
theorem redoes_run (hsteady : tools.Steady places) (hleft : ∀ q, left q ≠ none → q ∈ places)
    (hready : Ready s left dir w) (hroot : options.path .rootDir = .ok root)
    (hdir : w.Leads root.parent dir) (hup : Path.up ∉ dir)
    (hfiles : ∀ f ∈ files, IsSource root f.1) (hpurpose : purpose.StaysIn s w) :
    (c.run tools policy options files purpose).Redoes s left w := by
  have hw := hready.grounded
  refine (redoes_openRoot hw hroot hdir).bind fun opened v hopened hv => ?_
  obtain ⟨found, base⟩ := opened
  obtain ⟨-, hroot', hbase⟩ := of_run_openRoot hw hroot hdir hopened
  subst hroot' hbase
  have hreadyv := hready.of_grows hv
  have hdirv := (hv.leads hdir).directory hreadyv.grounded
  have hplace : dir ++ [stagingName] = temporaryPlace v.tree dir ".dnt-staging-" :=
    (temporaryPlace_of_free ".dnt-staging-" hreadyv.free).symm
  have hne : dir ++ [stagingName] ≠ [] := by simp
  have hnameUp : Path.up ∉ dir ++ [stagingName] := by
    rw [List.mem_append, not_or]
    exact ⟨hup, by decide⟩
  refine (redoes_withTemporary hplace ?_ ?_ ?_ ?_).bind fun _ _ _ _ => redoes_interpret _ _ _
  · intro q hq
    have habove : v.tree.get? q = some .directory := FileTree.directory_above hdirv hq
    exact ⟨by rw [FileTree.file?, habove], .inl habove⟩
  · exact fun q hq => (hreadyv.apart q hq).2.2
  · intro v' hv'
    have hfree' : v'.tree.get? (dir ++ [stagingName]) = none := by
      rw [hv'.tree, hreadyv.free, (hreadyv.apart _ (List.prefix_refl _)).2.2]
      rfl
    exact (temporaryPlace_of_free ".dnt-staging-" hfree').symm
  · have hsame := (withDirectory_leads hdirv hup hreadyv.free (by decide)).1
    have hbegin := hsame.grounded hreadyv.grounded
    have hyard : (v.withDirectory (dir ++ [stagingName])).Yard
        (s.withGround (dir ++ [stagingName])) (dir ++ [stagingName]) :=
      Workspace.yard_withDirectory hne hnameUp
    refine Redoes.bind (redoes_stage hbegin hyard hfiles) fun _ u _ hu => ?_
    refine Redoes.bind (redoes_execute hsteady hleft (hu.grounded hbegin) ?_)
      fun _ _ _ _ => redoes_pure _
    intro only path heq
    obtain ⟨place, rfl, hplaceYard⟩ := hpurpose only path heq
    refine ⟨place, rfl, ⟨?_, hplaceYard.up_not_mem, fun q hq => .inl (hplaceYard.ground q hq)⟩⟩
    exact hu.tree.directories _ (hsame.tree.directories _
      (hv.tree.directories _ hplaceYard.directory))

end Compiler

end DenoPackager
