import DenoPackager.Proofs.Files.Package
import DenoPackager.Proofs.Rebuild.Programs

/-!
# Packages that are built once more

A package is built on a site of its own: a build makes the directories on the way to the package
and the place for temporary directories, and below the package a few names. While it goes on there
is nothing else in the package, so temporary directories are made at the same places again, and
everything from the manifest to the tests can be done once more.

## Main definitions

* `Build.packageNames`, `Site.package`: what a build makes in a package, and the site it builds on.
* `Build.Underway`: workspaces in which a package is being built over leftovers.

## Main results

* `Build.Underway.redoes_check`: a check of a program of the package.
* `Build.Underway.redoes_emit`: an emission in a pass.
-/

namespace DenoPackager

open DenoPackager.Action
open DenoPackager.Path (follow)

/-! ### Temporary names -/

theorem foldl_max_le_iff {ns : List Nat} {a b : Nat} :
    ns.foldl Nat.max a ≤ b ↔ a ≤ b ∧ ∀ n ∈ ns, n ≤ b := by
  induction ns generalizing a with
  | nil => simp
  | cons n ns ih =>
    rw [List.foldl_cons, ih, List.forall_mem_cons, ← and_assoc]
    exact and_congr_left' Nat.max_le

/-- **A fresh name** depends on which names there are, and only if the first choice is one of
them. -/
theorem freshName_congr {names names' : List String} {start : String}
    (hfirst : start ++ "X" ∈ names ↔ start ++ "X" ∈ names')
    (hall : start ++ "X" ∈ names → ∀ name, name ∈ names ↔ name ∈ names') :
    freshName names start = freshName names' start := by
  by_cases hmem : start ++ "X" ∈ names
  · have hmax : (names.map String.length).foldl Nat.max 0 =
        (names'.map String.length).foldl Nat.max 0 := by
      refine eq_of_forall_ge_iff fun b => ?_
      rw [foldl_max_le_iff, foldl_max_le_iff, List.forall_mem_map, List.forall_mem_map]
      exact and_congr_right' (forall_congr' fun name => by rw [hall hmem name])
    simp only [freshName, if_pos hmem, if_pos (hfirst.1 hmem), hmax]
  · simp only [freshName, if_neg hmem, if_neg fun h => hmem (hfirst.2 h)]

/-- **The files below a directory** are listed alike if the same stands there. -/
theorem FileTree.filesBelow_congr {t u : FileTree} {dir : Place}
    (h : ∀ q, u.get? (dir ++ q) = t.get? (dir ++ q)) : u.filesBelow dir = t.filesBelow dir := by
  have hmem : ∀ q, q ∈ u.filesBelow dir ↔ q ∈ t.filesBelow dir := by
    intro q
    rw [mem_filesBelow, mem_filesBelow, h]
  have hascending (t : FileTree) :
      (t.filesBelow dir).Pairwise fun p q => Path.namesLe p q = true :=
    (t.filesBelow_ascending dir).imp And.left
  refine List.Perm.eq_of_pairwise (fun p q _ _ => Path.namesLe_antisymm) (hascending u)
    (hascending t) ?_
  exact (List.perm_ext_iff_of_nodup (u.nodup_filesBelow dir) (t.nodup_filesBelow dir)).2 hmem

/-! ### The site of a package -/

/-- **What a build makes in a package.** -/
def Build.packageNames : List String :=
  ["package.json", ".npmignore", "src", "types", "esm", "umd", "test_runner.js"]

/-- **The site of a package**: directories are made on the way to it and to the place for temporary
directories, and anything below the names that a build makes. -/
def Site.package (dir : Place) : Site where
  ways := {q | q <+: dir ∨ q <+: temporaryRoot}
  grounds := {q | ∃ name ∈ Build.packageNames, dir ++ [name] <+: q}

namespace Build

/-- **Workspaces in which a package is being built** over leftovers: nothing was made in its
directory but what a build makes there, and the leftovers are on its site. -/
structure Underway (left : Leftovers) (dir : Place) (w : Workspace) : Prop where
  grounded : w.Grounded
  up_not_mem : Path.up ∉ dir
  ne_nil : dir ≠ []
  bare : ∀ name rel, name ∉ packageNames → w.tree.get? (dir ++ name :: rel) = none
  temporary : w.tree.file? temporaryRoot = none
  left : ∀ q, left q ≠ none → q ∈ (Site.package dir).places

variable {left : Leftovers} {dir : Place} {w v : Workspace} {name : String} {rel : List String}

/-- A name of the package that a build does not make is not on its site. -/
theorem not_mem_site (hne : dir ≠ []) (hname : name ∉ packageNames) (rel : List String) :
    dir ++ name :: rel ∉ (Site.package dir).ways ∧
      dir ++ name :: rel ∉ (Site.package dir).grounds := by
  constructor
  · rintro (hpre | hpre)
    · have hlen := hpre.length_le
      simp only [List.length_append, List.length_cons] at hlen
      omega
    · have hlen := hpre.length_le
      have hpos := List.length_pos_iff.2 hne
      simp only [List.length_append, List.length_cons, temporaryRoot, List.length_nil] at hlen
      omega
  · rintro ⟨other, hother, hpre⟩
    rw [List.prefix_append_right_inj, List.cons_prefix_cons] at hpre
    exact hname (hpre.1 ▸ hother)

/-- The place for temporary directories is not on the grounds of a package. -/
theorem temporaryRoot_not_mem (hne : dir ≠ []) :
    temporaryRoot ∉ (Site.package dir).grounds := by
  rintro ⟨other, -, hpre⟩
  have hlen := hpre.length_le
  have hpos := List.length_pos_iff.2 hne
  simp only [List.length_append, List.length_cons, temporaryRoot, List.length_nil] at hlen
  omega

/-- None of the names of a package is that of a temporary directory. -/
theorem packageNames_shape (hname : name ∈ Compiler.stagingName :: packageNames) :
    temporaryRoot ≠ [name] ∧ ¬ "dnt-emit-".toList <+: name.toList := by
  have hall : ∀ name ∈ Compiler.stagingName :: packageNames,
      temporaryRoot ≠ [name] ∧ ¬ "dnt-emit-".toList <+: name.toList := by decide
  exact hall name hname

theorem stagingName_not_mem : Compiler.stagingName ∉ packageNames := by decide

/-- **A file can be written** below a name that a build makes. -/
theorem admits_package {package : Path} (hdir : dir = package.start w.cwd ++ package.parts)
    (hname : name ∈ packageNames) (hup : Path.up ∉ package.parts ++ name :: rel) :
    w.Admits (Site.package dir) { package with parts := package.parts ++ name :: rel } := by
  have hground {rest : List String} : dir ++ name :: rest ∈ (Site.package dir).grounds :=
    ⟨name, hname, by rw [List.prefix_append_right_inj]; exact ⟨rest, rfl⟩⟩
  constructor
  · intro pre hpre
    have hparent : ({ package with parts := package.parts ++ name :: rel } : Path).parent.parts =
        package.parts ++ (name :: rel).dropLast :=
      List.dropLast_append_of_ne_nil (List.cons_ne_nil _ _)
    rw [hparent] at hpre
    have hpreUp : Path.up ∉ pre := fun hmem => hup <| by
      rcases List.mem_append.1 (hpre.subset hmem) with hmem | hmem
      · exact List.mem_append_left _ hmem
      · exact List.mem_append_right _ ((List.dropLast_sublist _).subset hmem)
    rw [Path.follow_of_not_mem hpreUp]
    rcases List.prefix_or_prefix_of_prefix hpre (List.prefix_append package.parts _) with
      habove | ⟨rest, rfl⟩
    · left; left
      rw [hdir]
      exact (List.prefix_append_right_inj _).2 habove
    · rw [List.prefix_append_right_inj] at hpre
      have hrest := hpre.trans (List.dropLast_prefix _)
      have hplace : package.start w.cwd ++ (package.parts ++ rest) = dir ++ rest := by
        rw [hdir, List.append_assoc]
      cases rest with
      | nil =>
        rw [List.append_nil]
        exact .inl (.inl (hdir ▸ List.prefix_refl _))
      | cons c rest =>
        obtain ⟨rfl, -⟩ := List.cons_prefix_cons.1 hrest
        right; left
        exact hplace ▸ hground
  · have hplace : package.start w.cwd ++ (package.parts ++ name :: rel) = dir ++ name :: rel := by
      rw [hdir, List.append_assoc]
    rw [Path.follow_of_not_mem hup]
    exact hplace ▸ hground

namespace Underway

variable (h : Underway left dir w)

include h

theorem of_grows (hgrows : w.Grows (Site.package dir) v) : Underway left dir v where
  grounded := hgrows.grounded h.grounded
  up_not_mem := h.up_not_mem
  ne_nil := h.ne_nil
  bare name rel hname := by
    obtain ⟨hways, hgrounds⟩ := not_mem_site h.ne_nil hname rel
    rw [hgrows.tree.outside _ hways hgrounds, h.bare name rel hname]
  temporary := by
    rw [Option.eq_none_iff_forall_ne_some]
    intro content hcontent
    rcases hgrows.tree.new_files _ (by rw [hcontent]; rfl) with hold | hnew
    · simp [h.temporary] at hold
    · exact temporaryRoot_not_mem h.ne_nil hnew
  left := h.left

/-- **The compiler can be run once more.** -/
theorem ready : Compiler.Ready (Site.package dir) left dir w where
  grounded := h.grounded
  free := h.bare _ [] stagingName_not_mem
  apart q hq := by
    obtain ⟨rel, rfl⟩ := hq
    rw [List.append_assoc, List.singleton_append]
    obtain ⟨hways, hgrounds⟩ := not_mem_site h.ne_nil stagingName_not_mem rel
    refine ⟨hways, hgrounds, ?_⟩
    by_contra hleft
    exact (h.left _ hleft).elim hways hgrounds

/-- **Nothing of a scratch directory** is left, and the staging directory is not in it. -/
theorem scratch_apart (hdir : w.tree.get? dir = some .directory) {q : Place}
    (hq : temporaryPlace w.tree temporaryRoot "dnt-emit-" <+: q) :
    left q = none ∧ ¬ dir ++ [Compiler.stagingName] <+: q := by
  have hapart {name : String} (hname : name ∈ Compiler.stagingName :: packageNames) :=
    scratch_apart_name hdir (packageNames_shape hname).1 (packageNames_shape hname).2
  have hnot {name : String} (hname : name ∈ Compiler.stagingName :: packageNames) :
      ¬ dir ++ [name] <+: q := by
    obtain ⟨more, rfl⟩ := hq
    exact (hapart hname).2.1 more
  refine ⟨?_, hnot List.mem_cons_self⟩
  by_contra hleft
  rcases h.left q hleft with (hpre | hpre) | ⟨name, hname, hpre⟩
  · exact (hapart List.mem_cons_self).1 (hq.trans hpre)
  · have hlen := (hq.trans hpre).length_le
    simp [temporaryPlace, temporaryRoot] at hlen
  · exact hnot (List.mem_cons_of_mem _ hname) hpre

/-- **A name below the place for temporary directories** that was left there stands on the way to
the package, or is one of the package. -/
theorem temporary_name (hdir : w.tree.get? dir = some .directory) {w' : Workspace}
    (hw' : w.Over left w') (hname : name ∈ w'.tree.childNames temporaryRoot) :
    name ∈ w.tree.childNames temporaryRoot ∨ dir = temporaryRoot ∧ name ∈ packageNames := by
  rw [FileTree.mem_childNames] at hname ⊢
  cases hget : w.tree.get? (temporaryRoot ++ [name]) with
  | some n => exact .inl rfl
  | none =>
    rw [hw'.tree, hget, Option.none_or] at hname
    rcases h.left _ (Option.isSome_iff_ne_none.1 hname) with (hpre | hpre) | ⟨made, hmade, hpre⟩
    · rw [FileTree.directory_above hdir hpre] at hget
      simp at hget
    · have hlen := hpre.length_le
      rw [List.length_append, List.length_singleton] at hlen
      omega
    · right
      rcases List.prefix_concat_iff.1 hpre with heq | habove
      · obtain ⟨hroot, hlast⟩ := List.append_inj' heq rfl
        exact ⟨hroot, List.singleton_inj.1 hlast ▸ hmade⟩
      · have hroot : dir ++ [made] <+: [] ++ temporaryRoot := habove
        rcases List.prefix_concat_iff.1 hroot with heq | hnil
        · exact absurd (List.append_inj' heq rfl).1 h.ne_nil
        · simpa using List.prefix_nil.1 hnil

/-- **A scratch directory** is made at the same place again. -/
theorem temporaryPlace_eq (hdir : w.tree.get? dir = some .directory) {w' : Workspace}
    (hw' : w.Over left w') :
    temporaryPlace w.tree temporaryRoot "dnt-emit-" =
      temporaryPlace w'.tree temporaryRoot "dnt-emit-" := by
  have hkept {name : String} (hname : name ∈ w.tree.childNames temporaryRoot) :
      name ∈ w'.tree.childNames temporaryRoot := by
    rw [FileTree.mem_childNames, Option.isSome_iff_exists] at hname ⊢
    exact hname.imp fun _ hn => hw'.tree.get?_eq hn
  have hshape : "dnt-emit-" ++ "X" ∉ packageNames := by decide
  refine congrArg (fun name => temporaryRoot ++ [name])
    (freshName_congr ⟨hkept, fun hmem => ?_⟩ fun hfirst name => ⟨hkept, fun hmem => ?_⟩)
  · exact (h.temporary_name hdir hw' hmem).resolve_right fun hin => hshape hin.2
  · refine (h.temporary_name hdir hw' hmem).resolve_right fun hin => ?_
    -- the package would be the place for temporary directories, where the first choice is free
    rw [FileTree.mem_childNames, ← hin.1, h.bare _ [] hshape] at hfirst
    simp at hfirst

end Underway

end Build

/-! ### Programs of a package -/

/-- The directory of a pass is one of the names that a build makes. -/
theorem Pass.directory_mem (pass : Pass) : pass.directory ∈ Build.packageNames := by
  cases pass <;> decide

section

variable {left : Leftovers} {dir q : Place} {w : Workspace} {s : Site} {tools : Tools}
  {compilerPolicy policy : Policy} {c : Compiler} {package : Path} {project : Project}
  {files : List TransformedFile}

/-- **The sources of a project** are sources of its package, whatever was done to their texts. -/
theorem Project.Holds.isSource (h : project.Holds package files) (hproper : package.Proper)
    (transforms : List SourceTransform) :
    ∀ f ∈ project.program.prepared transforms, IsSource (package.child "src") f.1 := by
  intro f hf
  obtain ⟨g, hg, rfl⟩ := List.mem_map.1 hf
  have hmem : g ∈ files.map fun f => (sourcePath package f.path, f.text) := h.files_eq ▸ hg
  obtain ⟨file, hfile, rfl⟩ := List.mem_map.1 hmem
  exact (isSource_sourcePath hproper (h.below file hfile)).1

/-- Without anything done to their texts, the sources of a program are its files. -/
theorem Program.prepared_nil (p : Program) : p.prepared [] = p.files := by
  simp [Program.prepared]

/-- The sources of a package stand in it. -/
theorem Path.parent_child (package : Path) (name : String) :
    (package.child name).parent = package := by
  rw [child, parent, List.dropLast_concat]

/-- **Handing on** a file that the site admits. -/
theorem Program.redoes_relay {scratch outDir : Path} (hw : w.Grounded)
    (hproper : (relayPath outDir q).Proper) (hadmits : w.Admits s (relayPath outDir q)) :
    (relay scratch outDir (Pass.writeEmitted policy) q).Redoes s left w := by
  have hread : (look fun t cwd => t.readText cwd (scratch.join ⟨.none, q⟩)).Redoes s left w :=
    redoes_look fun text htext w' hw' => hw'.tree.readText hw.directory htext
  refine hread.bind fun content v _ hv => ?_
  rcases splitMark content with ⟨text, mark⟩
  refine Redoes.bind ?_ fun _ _ _ _ => redoes_pure _
  rw [Pass.writeEmitted, show (outDir.join ⟨.none, q⟩).text = (relayPath outDir q).text from rfl,
    Path.ofString_text hproper]
  exact Writer.redoes_writeMarked (hv.grounded hw) (hv.admits hadmits) _ _

/-- **Emitting into a scratch directory** in a pass. Nothing is left in it, and all that the
compiler puts there can be handed on. -/
theorem Pass.redoes_emitFrom (pass : Pass) {places : Set Place} {scratch : Place}
    (hsteady : tools.Steady places) (hleft : ∀ q, left q ≠ none → q ∈ places)
    (hready : Compiler.Ready s left dir w) (hpackage : w.Leads package dir) (hup : Path.up ∉ dir)
    (hproper : package.Proper) (hholds : project.Holds package files) (hyard : w.Yard s scratch)
    (hempty : ∀ q, scratch <+: q → left q = none)
    (hnames : ∀ ds u, (c.run tools compilerPolicy (pass.configure package project).options
      ((pass.configure package project).program.prepared pass.transforms)
      (.emit (pass = .declarations) (some ⟨.single, scratch⟩))).run w = (.ok ds, u) →
        u.tree.PlainBelow scratch)
    (hadmits : ∀ q, PlainPlace q →
      w.Admits s { package with parts := package.parts ++ pass.directory :: q }) :
    ((pass.configure package project).program.emitFrom c tools compilerPolicy
      (pass = .declarations) pass.transforms (writeEmitted policy) ⟨.single, scratch⟩).Redoes s
        left w := by
  have hw := hready.grounded
  have htarget : (pass.target package).Proper := hproper.child pass.directory_shape.1
  have hpurpose : (Purpose.emit (pass = .declarations) (some ⟨.single, scratch⟩)).StaysIn s w := by
    intro only path heq
    rw [Purpose.emit.injEq, Option.some.injEq] at heq
    exact ⟨scratch, heq.2.symm, hyard⟩
  refine Redoes.bind (Compiler.redoes_run hsteady hleft hready (hholds.configure pass).root
    (by rwa [Path.parent_child]) hup ((hholds.configure pass).isSource hproper _) hpurpose)
      fun ds u hrun hu => ?_
  refine (redoes_look_const _).bind fun outDir x hlook _ => ?_
  obtain ⟨hout, rfl⟩ := of_run_look_eq_ok hlook
  obtain rfl : .ofString (pass.target package).text = outDir :=
    Except.ok.inj ((path_outDir_configure package).symm.trans hout)
  rw [Path.ofString_text htarget]
  refine redoes_get_bind (fun x' hx' => ?_) (Redoes.bind (Redoes.mapEach fun q hq y hy => ?_)
    fun _ _ _ _ => redoes_pure _)
  · have hsame : x'.tree.filesBelow scratch = x.tree.filesBelow scratch :=
      FileTree.filesBelow_congr fun q => by
        rw [hx'.tree, hempty _ (List.prefix_append scratch q), Option.or_none]
    simp only [hsame]
  · obtain ⟨content, hfile⟩ := FileTree.mem_filesBelow.1 hq
    have hplain : PlainPlace q := hnames ds x hrun q (by rw [hfile]; rfl)
    have hpath : Program.relayPath (pass.target package) q =
        { package with parts := package.parts ++ pass.directory :: q } := by
      rw [Program.relayPath, target, Path.child, List.append_assoc, List.singleton_append]
    refine Program.redoes_relay ((hu.trans hy).grounded hw) ?_ ?_
    · intro part hpart
      rcases List.mem_append.1 hpart with hpart | hpart
      · exact htarget part hpart
      · exact (hplain part hpart).1
    · rw [hpath]
      exact (hu.trans hy).admits (hadmits q hplain)

namespace Build.Underway

variable (h : Underway left dir w) (hsteady : tools.Steady (Site.package dir).places)
  (hpackage : w.Leads package dir) (hproper : package.Proper) (hholds : project.Holds package files)

include h hsteady hpackage hproper hholds

/-- **Checking a program** of a package. -/
theorem redoes_check : (project.program.check c tools policy).Redoes (Site.package dir) left w := by
  have hfiles := hholds.isSource hproper []
  rw [Program.prepared_nil] at hfiles
  refine Compiler.redoes_run hsteady h.left h.ready hholds.root ?_ h.up_not_mem hfiles ?_
  · rwa [Path.parent_child]
  · intro only path heq
    simp at heq

/-- **Emitting a program** of a package in a pass. -/
theorem redoes_emit (hup : Path.up ∉ package.parts) (pass : Pass) :
    ((pass.configure package project).program.emit c tools compilerPolicy (pass = .declarations)
      pass.transforms (Pass.writeEmitted policy)).Redoes (Site.package dir) left w := by
  have hw := h.grounded
  have hstart : dir = package.start w.cwd ++ package.parts := FileTree.enter_down hup hpackage
  have hcwd : PlainPlace w.cwd.parts :=
    fun c hc => ⟨hw.proper c hc, fun heq => hw.up_not_mem (heq ▸ hc)⟩
  generalize hscratch : temporaryPlace w.tree temporaryRoot "dnt-emit-" = scratch
  have hfree : w.tree.get? scratch = none := by
    rw [← hscratch]
    exact temporaryPlace_free _ _ _
  have hplain : PlainPlace scratch := by
    rw [← hscratch]
    exact .append (by decide) (plain_freshName _ (by decide) (by decide))
  have hne : scratch ≠ [] := hscratch ▸ temporaryPlace_ne_nil w.tree _ _
  have hapart {q : Place} (hq : scratch <+: q) :
      left q = none ∧ ¬ dir ++ [Compiler.stagingName] <+: q :=
    h.scratch_apart (hpackage.directory hw) (by rwa [hscratch])
  have hview := FileTree.get?_insert_free hne hfree
  have hdirs (q : Place) (hq : w.tree.get? q = some .directory) :
      (w.withDirectory scratch).tree.get? q = some .directory := by
    refine (hview q).trans ?_
    split
    · rfl
    · exact hq
  have hready : Compiler.Ready ((Site.package dir).withGround scratch) left dir
      (w.withDirectory scratch) := by
    refine ⟨⟨hw.proper, hw.up_not_mem, hdirs _ hw.directory⟩, ?_, fun q hq => ?_⟩
    · refine (hview _).trans ?_
      rw [if_neg (hapart (List.prefix_refl _)).2, h.ready.free]
    · obtain ⟨hways, hgrounds, hleft⟩ := h.ready.apart q hq
      exact ⟨hways, fun hmem => hmem.elim hgrounds fun hq' => (hapart hq').2 hq, hleft⟩
  refine redoes_withTemporary hscratch.symm (fun q hq => ?_) (fun q hq => (hapart hq).1)
    (fun w' hw' => hscratch ▸ h.temporaryPlace_eq (hpackage.directory hw) hw') ?_
  · rcases List.prefix_concat_iff.1 (show q <+: [] ++ temporaryRoot from hq) with rfl | hnil
    · exact ⟨h.temporary, .inr (.inl (.inr (List.prefix_refl _)))⟩
    · rw [List.prefix_nil.1 hnil, FileTree.file?, FileTree.get?_nil]
      exact ⟨rfl, .inl rfl⟩
  · refine pass.redoes_emitFrom hsteady h.left hready (FileTree.enter_mono hdirs hpackage)
      h.up_not_mem hproper hholds (Workspace.yard_withDirectory hne hplain.up_not_mem)
      (fun q hq => (hapart hq).1) (fun ds u hrun => ?_) fun q hq => ?_
    · exact (pass.configure package project).program.plainBelow_of_run hcwd hplain hfree hrun
    · have hadmits : (w.withDirectory scratch).Admits (Site.package dir)
          { package with parts := package.parts ++ pass.directory :: q } := by
        refine admits_package hstart pass.directory_mem ?_
        simp only [List.mem_append, List.mem_cons, not_or]
        exact ⟨hup, Ne.symm pass.directory_shape.2.1, hq.up_not_mem⟩
      exact hadmits.withGround scratch

end Build.Underway

end

end DenoPackager
