import DenoPackager.Proofs.Rebuild.Finish
import DenoPackager.Proofs.Rebuild.Preparation

/-!
# Builds that are done twice

A build that is done once more in the tree that it has left changes nothing: it succeeds again with
the same outcome, and leaves the same tree. What the first build has left is the tree that it began
with, laid over everything that is new. So the program is prepared as before, the package is
produced as before over what is there already, and that comes to the tree that the first build had
before it removed the files of the tests.

The package has to be new for the first build, and nothing that the program or its tests consist of
may be looked for in it.

## Main definitions

* `Leftovers.between`: what is new in a tree.
* `Build.Clean`: a place for a package in which a build can be done twice.

## Main results

* `Build.Clean.over_between`: what a build leaves lies over what it has found.
* `Build.build_idempotent`: building twice comes to the same as building once.
-/

namespace DenoPackager

open DenoPackager.Action

/-! ### What is new in a tree -/

/-- **What is new in a tree**: what stands where nothing stood before. -/
def Leftovers.between (t v : FileTree) : Leftovers := fun q =>
  if (t.get? q).isSome then none else v.get? q

section

variable {t v x : FileTree} {q : Place} {n : Node}

theorem Leftovers.between_eq_some_iff :
    between t v q = some n ↔ t.get? q = none ∧ v.get? q = some n := by
  rw [between]
  cases t.get? q <;> simp

/-- A tree in which everything is kept lies over what is new in it. -/
theorem FileTree.over_between (h : ∀ q n, t.get? q = some n → v.get? q = some n) :
    t.Over (.between t v) v := by
  intro q
  cases hq : t.get? q with
  | some n => exact h q n hq
  | none =>
    rw [Option.none_or, Leftovers.between, hq]
    rfl

/-- **Over a part of itself** a tree is the same tree to look at. -/
theorem FileTree.Over.of_part {left : Leftovers} {u : FileTree} (h : t.Over left u)
    (hpart : ∀ q n, left q = some n → t.get? q = some n) : t.Over .nothing u := by
  intro q
  rw [h q, Leftovers.nothing, Option.or_none]
  cases hq : left q with
  | none => rw [Option.or_none]
  | some n => rw [hpart q n hq, Option.some_or]

/-- A part of a tree does not stand in its way. -/
theorem Leftovers.fits_of_part {left : Leftovers}
    (hpart : ∀ q n, left q = some n → t.get? q = some n) : left.Fits t where
  directories q hq content hleft := by
    rw [hpart q _ hleft] at hq
    simp at hq
  files q hq hleft := by
    rw [FileTree.file?, hpart q _ hleft] at hq
    simp at hq

end

namespace Build

variable {b : BuildTools} {options : BuildOptions} {cwd : Path} {t v x : FileTree} {out : Place}
  {r : BuildResult}

/-- **A place for a package** in which a build can be done twice. -/
structure Clean (options : BuildOptions) (cwd : Path) (t : FileTree) (out : Place) : Prop where
  grounded : (Workspace.fresh cwd t).Grounded
  proper : options.outDir.Proper
  up_not_mem : Path.up ∉ options.outDir.parts
  /-- The place is the one that the build is to write the package to. -/
  place : out = options.outDir.start cwd ++ options.outDir.parts
  /-- The directory of the package is not there yet. -/
  free : t.get? out = none
  /-- There is room for temporary directories. -/
  temporary : t.file? temporaryRoot = none
  /-- No name is a double dot. -/
  names : ∀ q, (t.get? q).isSome → Path.up ∉ q
  outside : LooksOutside options t cwd out

namespace Clean

variable (h : Clean options cwd t out)

include h

theorem up_not_mem_place : Path.up ∉ out := by
  rw [h.place, List.mem_append, not_or]
  refine ⟨fun hmem => ?_, h.up_not_mem⟩
  rw [Path.start] at hmem
  split at hmem
  · exact h.grounded.up_not_mem hmem
  · exact List.not_mem_nil hmem

/-- Nothing is on the grounds of the package yet. -/
theorem ground_free {q : Place} (hq : q ∈ (Site.package out).grounds) : t.get? q = none := by
  obtain ⟨name, -, rest, rfl⟩ := hq
  rw [List.append_assoc]
  exact FileTree.get?_below (by simp) (by simp [h.free])

/-- **The package can be built** over leftovers that are on its site. -/
theorem underway {left : Leftovers} (hleft : ∀ q, left q ≠ none → q ∈ (Site.package out).places)
    {w : Workspace} (hw : (Workspace.fresh cwd t).SameFiles w) : Underway left out w where
  grounded := hw.sameOutside.grounded (s := ∅) h.grounded
  up_not_mem := h.up_not_mem_place
  ne_nil := by
    rintro rfl
    simpa using h.free
  bare name rel _ := by
    rw [hw.tree]
    exact FileTree.get?_below (List.cons_ne_nil name rel) (by simp [Workspace.fresh, h.free])
  temporary := by
    rw [hw.tree]
    exact h.temporary
  left := hleft

variable (hgrows : t.Grows (Site.package out) x) (hdir : x.get? out = some .directory)
  (hkept : ∀ q, v.get? q = x.get? q ∨ q ∈ (Site.package out).grounds ∧ v.get? q = none)

include hgrows hdir hkept

/-- **Everything is kept** that the build has found. -/
theorem kept {q : Place} {n : Node} (hq : t.get? q = some n) : v.get? q = some n := by
  have hground : q ∉ (Site.package out).grounds := fun hmem => by
    simp [h.ground_free hmem] at hq
  rw [(hkept q).resolve_right fun hgone => hground hgone.1]
  by_cases hway : q ∈ (Site.package out).ways
  · -- on the way to the package there are directories only
    cases n with
    | directory => exact hgrows.directories q hq
    | file content =>
      have hfile : (t.file? q).isSome := by
        rw [FileTree.file?, hq]
        rfl
      obtain hout | htemp := hway
      · have hthere := hgrows.files q hfile
        simp [FileTree.file?, FileTree.directory_above hdir hout] at hthere
      · obtain rfl | rfl : q = [] ∨ q = temporaryRoot := by
          obtain hnil | ⟨rest, rfl, hrest⟩ := List.prefix_cons_iff.1 htemp
          · exact .inl hnil
          · exact .inr (List.prefix_nil.1 hrest ▸ rfl)
        · simp at hq
        · simp [h.temporary] at hfile
  · rw [hgrows.outside q hway hground, hq]

/-- **What a build leaves lies over what it has found**, and what is new is on the site of the
package and was there before the end of the build. -/
theorem over_between : t.Over (.between t v) v ∧ (Leftovers.between t v).Below out ∧
    (∀ q, Leftovers.between t v q ≠ none → q ∈ (Site.package out).places) ∧
    ∀ q n, Leftovers.between t v q = some n → x.get? q = some n := by
  have hpart : ∀ q n, Leftovers.between t v q = some n → t.get? q = none ∧ x.get? q = some n := by
    intro q n hq
    obtain ⟨hnew, hthere⟩ := Leftovers.between_eq_some_iff.1 hq
    refine ⟨hnew, ?_⟩
    obtain heq | ⟨-, hgone⟩ := hkept q
    · rw [← heq, hthere]
    · simp [hgone] at hthere
  have hplaces : ∀ q, Leftovers.between t v q ≠ none → q ∈ (Site.package out).places := by
    intro q hq
    obtain ⟨n, hn⟩ := Option.ne_none_iff_exists'.1 hq
    obtain ⟨hnew, hthere⟩ := hpart q n hn
    by_contra hnot
    rw [Site.places, Set.mem_union, not_or] at hnot
    simp [hgrows.outside q hnot.1 hnot.2, hnew] at hthere
  refine ⟨FileTree.over_between fun q n => h.kept hgrows hdir hkept, ⟨?_, ?_⟩, hplaces,
    fun q n hq => (hpart q n hq).2⟩
  · intro q content hq
    obtain ⟨hnew, hthere⟩ := hpart q _ hq
    have hfile : (x.file? q).isSome := by
      rw [FileTree.file?, hthere]
      rfl
    obtain hold | ⟨name, -, hname⟩ := hgrows.new_files q hfile
    · simp [FileTree.file?, hnew] at hold
    · exact (List.prefix_append out [name]).trans hname
  · intro q hq hup
    obtain hway | ⟨name, -, hname⟩ := hplaces q hq
    · obtain hout | htemp := hway
      · exact absurd (hout.subset hup) h.up_not_mem_place
      · exact absurd (htemp.subset hup) (by decide)
    · exact (List.prefix_append out [name]).trans hname

end Clean

/-- **Building twice comes to the same as building once.** A build of modules in files that
succeeded in a clean place, with programs to which what it has left makes no difference, succeeds
again in the tree that it has left, with the same outcome, and leaves the same tree. -/
theorem build_idempotent (htransformer : b.transformer = none) (hclean : Clean options cwd t out)
    (hsteady : b.tools.Steady (Site.package out).places) {w : Workspace}
    (h : (build b options).run (.fresh cwd t) = (.ok r, w)) :
    ∃ u, (build b options).run (.fresh cwd w.tree) = (.ok r, u) ∧
      ∀ q, u.tree.get? q = w.tree.get? q := by
  rw [build_eq_produce] at h ⊢
  obtain ⟨output, u, hprepare, h⟩ := of_run_bind_eq_ok h
  obtain ⟨_, x, hproduce, hfinish⟩ := of_run_bind_eq_ok h
  obtain ⟨hsame, -, tests, c, -, hc, houtput⟩ := of_run_prepare htransformer hprepare
  obtain ⟨mainSeen, testSeen, hcollected⟩ := Transform.collect_eq_ok_iff.1 hc
  obtain ⟨hbelow, hnodup⟩ : (∀ f ∈ output.allFiles, IsBelow f.path) ∧
      (output.allFiles.map (·.path)).Nodup :=
    houtput ▸ hcollected.paths_adapt hclean.grounded.proper.rooted cwd.isAbsolute_rooted
  have hpackage : out = options.outDir.start u.cwd ++ options.outDir.parts := by
    rw [hsame.cwd]
    exact hclean.place
  -- what the first build has come to before its end, and what it has left
  have hfirst : Underway .nothing out u := hclean.underway (fun q hq => absurd rfl hq) hsame
  have hgrows := (redoes_produce hfirst hsteady hclean.proper hclean.up_not_mem hbelow hnodup
    hpackage).grows _ _ hproduce
  have hleads := leads_of_run_produce hfirst hsteady hclean.proper hclean.up_not_mem hbelow hnodup
    hpackage hproduce
  have hcleared := cleared_of_run_finish hclean.proper hleads hbelow hfinish
  have hgrown : t.Grows (Site.package out) x.tree := by
    have htree := hgrows.tree
    rwa [hsame.tree] at htree
  obtain ⟨hover, hleft, hplaces, hpart⟩ := hclean.over_between hgrown
    (hleads.directory (hgrows.grounded hfirst.grounded)) hcleared.kept
  have hfits := Leftovers.fits_of_part hpart
  -- the second build comes to the same before its end, and so to the same after it
  have hbegin : (Workspace.fresh cwd t).Over (.between t w.tree) (.fresh cwd w.tree) :=
    ⟨rfl, hover, rfl, rfl, rfl⟩
  have hprepared : (prepare b options).Redoes (Site.package out) (.between t w.tree)
      (.fresh cwd t) :=
    redoes_prepare hclean.grounded hclean.place hclean.up_not_mem_place hclean.names hleft hclean.outside
      htransformer
  obtain ⟨u', hprepare', hu'⟩ := hprepared.again _ u hprepare (hgrows.tree.fits hfits) _ hbegin
  have hproduced := redoes_produce (hclean.underway hplaces hsame) hsteady hclean.proper
    hclean.up_not_mem hbelow hnodup hpackage
  obtain ⟨x', hproduce', hx'⟩ := hproduced.again _ x hproduce hfits u' hu'
  have hseen : x.Over .nothing x' :=
    ⟨hx'.cwd, hx'.tree.of_part hpart, hx'.created, hx'.written, hx'.events⟩
  obtain ⟨w', hfinish', hw'⟩ := repeats_finish hclean.proper hbelow r w hfinish x' hseen
  refine ⟨w', ?_, fun q => ?_⟩
  · rw [run_bind_of_ok hprepare', run_bind_of_ok hproduce', hfinish']
  · rw [hw'.tree q, Leftovers.nothing, Option.or_none]

/-! ### A build of a tested program -/

instance (name : String) : Decidable (IsDown name) :=
  decidable_of_iff ((Path.ofString name).root = .none ∧ (Path.ofString name).parts ≠ [] ∧
    Path.up ∉ (Path.ofString name).parts) ⟨fun h => ⟨h.1, h.2.1, h.2.2⟩,
    fun h => ⟨h.root, h.ne_nil, h.up_not_mem⟩⟩

/-- External programs that find no fault, of which the compiler leaves every source as it is and
puts nothing anywhere but below the directory that it emits to. -/
def steadyTools : Tools :=
  { echoTools with
    compiler := fun _ run => .exits 0 "" "" ((echoed run).filter fun o => decide (IsDown o.1)) }

/-- Leftovers make no difference to these programs. -/
theorem steadyTools_steady (places : Set Place) : steadyTools.Steady places where
  packageManager _ _ _ _ _ := rfl
  compiler _ _ _ _ _ := rfl
  below _ _ _ _ _ _ hexits o ho := by
    rw [steadyTools, CompilerOutcome.exits.injEq] at hexits
    rw [← hexits.2.2.2] at ho
    exact of_decide_eq_true (List.mem_filter.1 ho).2

/-- A build with these programs. -/
def steadyBuild : BuildTools := .standard steadyTools

/-- The package of a program with a test is built in a clean place. -/
theorem clean_tests : Clean testOptions (.ofString "/p") (testWorkspace "a.test.ts").tree
    ["p", "npm"] where
  grounded := ⟨.ofString "/p", by decide, by decide⟩
  proper := .ofString "./npm"
  up_not_mem := by decide
  place := by decide
  free := by decide
  temporary := by decide
  names := FileTree.up_not_mem_of_entries (by decide +kernel)
  outside :=
    { pattern := by
        intro s hs
        obtain rfl : Discovery.defaultPattern = s := Except.ok.inj hs
        decide +kernel
      imports := by
        intro tests c htests hc
        have hfound : testsOf testOptions (testWorkspace "a.test.ts").tree (.ofString "/p") =
            .ok [(testModule "a.test.ts").path] := by
          decide +kernel
        rw [hfound, Except.ok.injEq] at htests
        obtain ⟨c', hc', himports⟩ : ∃ c',
            Transform.collect (testWorkspace "a.test.ts").tree (.ofString "/p")
              (Path.ofString "/p").rooted (request testOptions [(testModule "a.test.ts").path]) =
                .ok c' ∧
            ∀ m ∈ c'.modules, ∀ p ∈ m.imports, ¬ ["p", "npm"] <+: p.parts :=
          Transform.exists_collect_of_any 1 (by decide +kernel)
        rw [← htests, hc', Except.ok.injEq] at hc
        exact hc ▸ himports }

/-- The build with these programs, given the program that it transforms. -/
def steadyGiven : BuildTools :=
  given 1 steadyBuild testOptions (testWorkspace "a.test.ts")

/-- The build is the same. -/
theorem run_build_tests : (build steadyBuild testOptions).run (testWorkspace "a.test.ts") =
    (build steadyGiven testOptions).run (testWorkspace "a.test.ts") :=
  run_build_given 1 rfl (by decide +kernel)

/-- The build succeeds. -/
theorem isOk_build_tests :
    ((build steadyGiven testOptions).run (testWorkspace "a.test.ts")).1.isOk = true := by
  have hall : Pass.all testOptions.declaration = [.esm, .umd] := rfl
  -- merge sort does not evaluate, insertion sort does
  have hsort (ps : List String) := List.mergeSort_eq_insertionSort (fun a b => a ≤ b) ps
  simp only [build, emitAll, Pass.emitAll, hall, Pass.runAll, Pass.run, Program.emit]
  unfold Program.emitFrom
  simp only [Compiler.run]
  unfold Compiler.stagedRun
  simp only [Compiler.stage, FileTree.filesBelow, mergeSort_namesLe, hsort]
  decide +kernel

theorem build_idempotent_tests : ∃ r w u,
    (build steadyBuild testOptions).run (testWorkspace "a.test.ts") = (.ok r, w) ∧
    (build steadyBuild testOptions).run (.fresh (.ofString "/p") w.tree) = (.ok r, u) ∧
    ∀ q, u.tree.get? q = w.tree.get? q := by
  have hok := isOk_build_tests
  rw [← run_build_tests] at hok
  match hrun : (build steadyBuild testOptions).run (testWorkspace "a.test.ts") with
  | (.ok r, w) =>
    obtain ⟨u, hagain, htree⟩ := build_idempotent rfl clean_tests (steadyTools_steady _) hrun
    exact ⟨r, w, u, rfl, hagain, htree⟩
  | (.error e, w) =>
    rw [hrun] at hok
    simp [Except.isOk, Except.toBool] at hok

end Build

end DenoPackager
