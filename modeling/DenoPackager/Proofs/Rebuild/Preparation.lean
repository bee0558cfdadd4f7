import DenoPackager.Proofs.Files.Package
import DenoPackager.Proofs.Rebuild.Finding
import DenoPackager.Proofs.Rebuild.Redo

/-!
# Programs that are prepared once more

What a build looks at before it begins to write its package is not in the package: tests that are
found there are left out, and modules are looked for where imports lead. So it prepares the same
program again over what it has left, unless an import leads into the package.

## Main definitions

* `Build.testsOf`: the tests that a build finds in a file tree.
* `Build.LooksOutside`: builds that look at nothing in their package.
* `Leftovers.Below`: leftovers of a package.

## Main results

* `Transform.walk_of_agree`, `Transform.Collected.of_agree`: the same modules are collected where
  the same imports are there.
* `Build.redoes_prepare`: the same program is prepared over leftovers.
-/

namespace DenoPackager

open DenoPackager.Action

/-! ### Modules -/

namespace Transform

variable {t u : FileTree} {cwd : Path} {queue : List Path} {seen ms : List Module} {warnings ws : List String}

/-- **A walk visits the same modules** in another tree, if all modules can be loaded there and the
same imports are there. -/
theorem walk_of_agree (hload : ∀ p m, load t cwd p = .ok m → load u cwd p = .ok m)
    (hthere : ∀ m ∈ ms, ∀ p ∈ m.imports, isThere u cwd p = isThere t cwd p)
    (h : walk t cwd queue seen warnings = .ok (ms, ws)) :
    walk u cwd queue seen warnings = .ok (ms, ws) := by
  fun_induction walk t cwd queue seen warnings with
  | case1 seen warnings => rwa [walk]
  | case2 seen warnings p queue hp ih =>
    rw [walk, dif_pos hp]
    exact ih h
  | case3 seen warnings p queue hp e he => simp at h
  | case4 seen warnings p queue hp m hm seen' ih =>
    have hmem : m ∈ ms := (subset_of_walk h).1 m (by simp [seen'])
    have hnew : newImports u cwd (seen ++ [m]) m = newImports t cwd (seen ++ [m]) m :=
      List.filter_congr fun p hp => by rw [hthere m hmem p hp]
    have hmissing : missingWarnings u cwd (seen ++ [m]) m =
        missingWarnings t cwd (seen ++ [m]) m :=
      congrArg _ (List.filter_congr fun p hp => by rw [hthere m hmem p hp])
    have hvisit : visit u cwd p = .ok m :=
      visit_eq_ok_iff.2 ((visit_eq_ok_iff.1 hm).imp_left (hload p m))
    rw [walk_cons_of_visit hp hvisit, hnew, hmissing]
    exact ih h

variable {base : Path} {request : Request} {c : Collection} {mainSeen testSeen : List Module}

/-- **The same is collected** in such a tree. -/
theorem Collected.of_agree (h : Collected t cwd base request mainSeen testSeen c)
    (hload : ∀ p m, load t cwd p = .ok m → load u cwd p = .ok m)
    (hthere : ∀ m ∈ c.modules, ∀ p ∈ m.imports, isThere u cwd p = isThere t cwd p) :
    Collected u cwd base request mainSeen testSeen c := by
  obtain ⟨warnings', hmain, htest⟩ := h.walks
  have hmem : ∀ m ∈ mainSeen, m ∈ c.modules := fun m hm =>
    List.mem_append_left _ (h.mem_main.2 hm)
  have hmem' : ∀ m ∈ testSeen, m ∈ c.modules := by
    intro m hm
    by_cases hold : m.path ∈ mainSeen.map Module.path
    · obtain ⟨k, hk, hpath⟩ := List.mem_map.1 hold
      have hkm := h.invariants.1.loaded k hk
      rw [hpath, h.invariants.2.loaded m hm, Except.ok.injEq] at hkm
      exact hkm ▸ hmem k hk
    · exact List.mem_append_right _ (h.mem_test.2 ⟨hm, hold⟩)
  exact { h with
    walks := ⟨warnings', walk_of_agree hload (fun m hm => hthere m (hmem m hm)) hmain,
      walk_of_agree hload (fun m hm => hthere m (hmem' m hm)) htest⟩ }

/-- **The imports of absolute modules** are absolute and never climb. -/
theorem Collected.up_not_mem_imports (h : Collected t cwd base request mainSeen testSeen c)
    (hbase : base.Proper) (habs : base.isAbsolute = true) {m : Module} (hm : m ∈ c.modules) {p : Path}
    (hp : p ∈ m.imports) : p.isAbsolute = true ∧ Path.up ∉ p.parts := by
  have habsolute : p.isAbsolute = true := by
    rw [Path.isAbsolute, root_of_mem_imports hp]
    exact h.isAbsolute habs hm
  obtain ⟨s, -, rfl⟩ := List.mem_map.1 hp
  exact ⟨habsolute, (settled_target (h.settled hbase hm).proper s).up_not_mem habsolute⟩

end Transform

namespace FileTree.Over

variable {left : Leftovers} {t u : FileTree} {cwd p : Path}

/-- What can be loaded can be loaded over leftovers. -/
theorem load (h : t.Over left u) (hcwd : t.get? cwd.parts = some .directory)
    {m : Transform.Module} (hload : Transform.load t cwd p = .ok m) :
    Transform.load u cwd p = .ok m := by
  obtain ⟨hshort, text, hread, hm⟩ := Transform.load_eq_ok_iff.1 hload
  exact Transform.load_eq_ok_iff.2 ⟨hshort, text, h.readText hcwd hread, hm⟩

/-- The same absolute paths that never climb lead to files over leftovers that are no files there. -/
theorem isThere_eq (h : t.Over left u) (habs : p.isAbsolute = true) (hup : Path.up ∉ p.parts)
    (hp : ∀ content, left p.parts ≠ some (.file content)) :
    Transform.isThere u cwd p = Transform.isThere t cwd p := by
  rw [Transform.isThere, Transform.isThere, Bool.eq_iff_iff, Bool.and_eq_true, Bool.and_eq_true,
    isFile_iff habs hup, isFile_iff habs hup, h.isFileAt_eq hp]

end FileTree.Over

/-- **Leftovers of a package**: files in its directory, and directories on the way to it or in
it. -/
structure Leftovers.Below (out : Place) (left : Leftovers) : Prop where
  files : ∀ q content, left q = some (.file content) → out <+: q
  up : ∀ q, left q ≠ none → Path.up ∈ q → out <+: q

namespace Build

/-- **The tests that a build finds** in a file tree. -/
def testsOf (options : BuildOptions) (t : FileTree) (cwd : Path) : Except Fault (List Path) :=
  if options.test then do
    Discovery.testsIn t ((options.rootTestDir.getD cwd).resolved cwd)
      (← Discovery.patternOf options.testPattern) [options.outDir.resolved cwd]
  else .ok []

/-- **Builds that look at nothing in their package**: the pattern of their tests never goes up, and
no module that they collect imports anything from the directory of the package. -/
structure LooksOutside (options : BuildOptions) (t : FileTree) (cwd : Path) (out : Place) :
    Prop where
  pattern : ∀ s, Discovery.patternOf options.testPattern = .ok s → Discovery.StaysDown s
  imports : ∀ tests c, testsOf options t cwd = .ok tests →
    Transform.collect t cwd cwd.rooted (request options tests) = .ok c →
    ∀ m ∈ c.modules, ∀ p ∈ m.imports, ¬ out <+: p.parts

variable {b : BuildTools} {options : BuildOptions} {out : Place} {left : Leftovers} {s : Site}
  {w v : Workspace} {tests : List Path}

/-- **The directory of a package** that never goes up. -/
theorem resolved_outDir {cwd : Path} (hout : out = options.outDir.start cwd ++ options.outDir.parts)
    (hup : Path.up ∉ out) : options.outDir.resolved cwd = ⟨.single, out⟩ := by
  have hseen : (options.outDir.seenFrom cwd).parts = out := by
    rw [hout, Path.seenFrom, Path.join, Path.start]
    cases options.outDir.root <;> rfl
  have hnormal (absolute : Bool) : Path.normalParts absolute out = out :=
    have hnil : Path.normalParts absolute ([] ++ out) = Path.normalParts absolute [] ++ out :=
      Path.normalParts_append hup
    hnil
  rw [Path.resolved, Path.absolute, Path.normal, hseen, hnormal]

/-- **Tests that a build has found.** -/
theorem testsOf_of_run_discover (h : (discover options).run w = (.ok tests, v)) :
    testsOf options w.tree w.cwd = .ok tests := by
  rw [discover] at h
  split at h
  · rename_i htest
    obtain ⟨_, w', hget, h⟩ := of_run_bind_eq_ok h
    rw [run_get, Prod.mk.injEq, Except.ok.injEq] at hget
    obtain ⟨rfl, rfl⟩ := hget
    obtain ⟨found, x, hfind, h⟩ := of_run_bind_eq_ok h
    obtain ⟨_, y, -, h⟩ := of_run_bind_eq_ok h
    obtain ⟨_, w'', hget, hfind⟩ := of_run_bind_eq_ok hfind
    rw [run_get, Prod.mk.injEq, Except.ok.injEq] at hget
    obtain ⟨rfl, rfl⟩ := hget
    obtain ⟨_, u, hnul, hfind⟩ := of_run_bind_eq_ok hfind
    have hsame := (still_failure _).onlyIf _ _ _ _ hnul
    obtain ⟨found', z, hlook, hfind⟩ := of_run_bind_eq_ok hfind
    obtain ⟨htests, -⟩ := of_run_look_eq_ok hlook
    obtain ⟨_, z', -, hend⟩ := of_run_bind_eq_ok hfind
    rw [run_pure, Prod.mk.injEq, Except.ok.injEq] at h hend
    rw [hsame.tree, hsame.cwd] at htests
    rw [testsOf, if_pos htest, ← h.1, ← hend.1]
    exact htests
  · rename_i htest
    rw [run_pure, Prod.mk.injEq, Except.ok.injEq] at h
    rw [testsOf, if_neg htest, h.1]

section

variable (hw : w.Grounded) (hout : out = options.outDir.start w.cwd ++ options.outDir.parts)
  (hup : Path.up ∉ out) (hdown : ∀ q, (w.tree.get? q).isSome → Path.up ∉ q) (hleft : left.Below out)
  (houtside : LooksOutside options w.tree w.cwd out)

include hout hup hdown hleft houtside

/-- **Finding the tests** once more. -/
theorem redoes_discover : (discover options).Redoes s left w := by
  rw [discover]
  split
  · refine redoes_get_bind (fun w' hw' => by rw [hw'.cwd]) ?_
    refine Redoes.bind ?_ fun _ _ _ _ => (redoes_log _ _).bind fun _ _ _ _ => redoes_pure _
    rw [Discovery.find]
    refine redoes_get_bind (fun w' hw' => by simp only [hw'.cwd]) ?_
    refine (Redoes.onlyIf _ fun _ => redoes_failure _).bind fun _ v hnul _ => ?_
    have hsame := (still_failure _).onlyIf _ _ _ _ hnul
    refine Redoes.bind ?_ fun _ _ _ _ => (redoes_log _ _).bind fun _ _ _ _ => redoes_pure _
    refine redoes_look fun found hfound v' hv' => ?_
    obtain ⟨pattern, hpattern, hfound⟩ := Except.bind_eq_ok_iff.1 hfound
    refine Except.bind_eq_ok_iff.2 ⟨pattern, hpattern, ?_⟩
    rw [hsame.cwd, List.map_singleton, resolved_outDir hout hup] at hfound ⊢
    rw [hsame.tree] at hfound
    exact Discovery.testsIn_over (hsame.tree ▸ hv'.tree) hdown hleft.up hleft.files rfl
      List.mem_cons_self (houtside.pattern pattern hpattern) hfound
  · exact redoes_pure []

include hw

/-- **Transforming the program** once more. -/
theorem redoes_transformProgram (htransformer : b.transformer = none) :
    (transformProgram b options (EntryPoint.ofSpecs options.entryPoints)).Redoes s left w := by
  refine (redoes_discover hout hup hdown hleft houtside).bind fun tests v htests hv => ?_
  have hsame := still_discover _ _ _ htests
  refine redoes_get_bind (fun w' hw' => by simp only [hw'.cwd]) ?_
  rw [htransformer, Option.getD_none]
  refine Redoes.bind ?_ fun output u _ _ => Redoes.bind (Redoes.forEach fun _ _ _ _ =>
    redoes_log _ _) fun _ _ _ _ => redoes_pure _
  rw [Transform.transform]
  refine Redoes.bind ?_ fun _ _ _ _ => (redoes_log _ _).bind fun _ _ _ _ => redoes_pure _
  refine redoes_look fun output houtput v' hv' => ?_
  rw [Transform.transformTree] at houtput ⊢
  obtain ⟨c, hc, rfl⟩ := Except.map_eq_ok_iff.1 houtput
  refine Except.map_eq_ok_iff.2 ⟨c, ?_, rfl⟩
  rw [hsame.tree, hsame.cwd] at hc
  have hbase : w.cwd.rooted.Proper := hw.proper.rooted
  obtain ⟨mainSeen, testSeen, hcollected⟩ := Transform.collect_eq_ok_iff.1 hc
  refine Transform.collect_eq_ok_iff.2 ⟨mainSeen, testSeen, ?_⟩
  have hover := hsame.tree ▸ hv'.tree
  rw [hsame.cwd]
  refine hcollected.of_agree (fun p m => hover.load hw.directory) fun m hm p hp => ?_
  have himport := houtside.imports tests c (testsOf_of_run_discover htests) hc m hm p hp
  obtain ⟨habs, hclimb⟩ :=
    hcollected.up_not_mem_imports hbase w.cwd.isAbsolute_rooted hm hp
  exact hover.isThere_eq habs hclimb fun content hfile => himport (hleft.files _ content hfile)

/-- **Preparing the program** once more. -/
theorem redoes_prepare (htransformer : b.transformer = none) :
    (prepare b options).Redoes s left w := by
  refine (redoes_ofExcept _).bind fun _ u hcheck _ => ?_
  have hsame := still_ofExcept _ _ _ _ hcheck
  refine (Policy.redoes_checkWrite _).bind fun _ v hpolicy _ => ?_
  have hsame' := hsame.trans (Policy.still_checkWrite _ _ _ _ _ hpolicy)
  refine (redoes_log _ _).bind fun _ x hlog _ => ?_
  have hsame'' := hsame'.trans (still_log _ _ _ _ _ hlog)
  have hcwd := hsame''.cwd
  have htree := hsame''.tree
  refine redoes_transformProgram (hsame''.sameOutside.grounded (s := ∅) hw) ?_ hup ?_ hleft ?_
    htransformer
  · rw [hcwd, hout]
  · rw [htree]
    exact hdown
  · rw [htree, hcwd]
    exact houtside

end

end Build

end DenoPackager
