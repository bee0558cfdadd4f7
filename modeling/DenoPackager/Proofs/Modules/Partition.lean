import DenoPackager.Proofs.Modules.Within

/-!
# The two groups of modules

The modules of a program are the least closed set of its entry points. The modules of its tests
are the least closed set of theirs, less what the program reaches itself. Both groups are in the
order of their paths, and the output names every entry point by the output path of its module.

The least closed sets do not mention a walk: import cycles, and modules that several others
import, need no word of their own.

## Main definitions

* `entryPaths`: the paths that entry points name.
* `Partition`: the two groups are what their entry points reach.
* `Handled`: programs of which all paths can be handled.
* `Aligned`: a group of files names its modules and its entry points.
* `Transformed`: a transformed program consists of two such groups.

## Main results

* `Collected.partition`: what is collected is such a partition.
* `transform_partition`: when transforming succeeds if the entry points are there; it gives the files
  of such a partition.
* `untransformed_programs`: programs of which not all paths can be handled.
-/

namespace DenoPackager.Transform

/-- **The paths that entry points name**, seen from a directory. -/
def entryPaths (base : Path) (names : List String) : List Path :=
  names.map fun name => (Path.ofString name).absolute base

/-- **The two groups** are what their entry points reach, in ascending order without repetition,
with what the program reaches left out of the tests. -/
structure Partition (t : FileTree) (cwd : Path) (mains tests : List Path)
    (main test : List Module) : Prop where
  main_isLeast : IsLeast (Closed t cwd mains) {p | p ∈ main.map Module.path}
  test_isLeast : ∃ reached, IsLeast (Closed t cwd tests) reached ∧
    {p | p ∈ test.map Module.path} = reached \ {p | p ∈ main.map Module.path}
  disjoint : (main.map Module.path).Disjoint (test.map Module.path)
  main_ascending : (main.map Module.path).Pairwise fun p q => p.le q = true ∧ p ≠ q
  test_ascending : (test.map Module.path).Pairwise fun p q => p.le q = true ∧ p ≠ q
  loaded : ∀ m ∈ main ++ test, load t cwd m.path = .ok m

/-- **A group of files** has one file for each of the modules `ms`, at its output path, and one
name for each entry point: the output path of the module in `all` that stands there. -/
structure Aligned (outPath : Path → String) (ms all : List Module) (entries : List Path)
    (g : FileGroup) : Prop where
  files : g.files.map TransformedFile.path = ms.map fun m => outPath m.path
  entryPoints : List.Forall₂ (fun e name => ∃ m ∈ all, m.path = e ∧ name = outPath m.path)
    entries g.entryPoints

/-- **A transformed program**: its files are those of the modules that its entry points reach, in
two groups, and no two of them have the same output path. -/
structure Transformed (t : FileTree) (cwd base : Path) (mains tests : List String) (c : Collection)
    (output : TransformOutput) : Prop where
  partition : Partition t cwd (entryPaths base mains) (entryPaths base tests) c.main c.test
  nodup : (c.modules.map fun m => c.layout.outPath m.path).Nodup
  main : Aligned c.layout.outPath c.main c.main (entryPaths base mains) output.main
  test : Aligned c.layout.outPath c.test c.modules (entryPaths base tests) output.test

variable {t : FileTree} {cwd base : Path} {request : Request} {c : Collection}
  {mainSeen testSeen : List Module}

/-! ### What is collected -/

/-- Modules that were seen once each are sorted into ascending order without repetition. -/
theorem sortModules_ascending {ms : List Module} (h : (ms.map Module.path).Nodup) :
    ((sortModules ms).map Module.path).Pairwise fun p q => p.le q = true ∧ p ≠ q := by
  have hle : (sortModules ms).Pairwise fun a b => a.path.le b.path = true :=
    List.pairwise_mergeSort
      (fun a b k => @Path.namesLe_trans a.path.key b.path.key k.path.key)
      (fun a b => Path.namesLe_total a.path.key b.path.key) ms
  have hne : ((sortModules ms).map Module.path).Nodup :=
    ((List.mergeSort_perm ms _).map Module.path).nodup_iff.2 h
  exact (List.pairwise_map.2 hle).and hne

/-- The paths of the program are those that its walk has seen. -/
theorem Collected.mem_mainPaths (h : Collected t cwd base request mainSeen testSeen c) {p : Path} :
    p ∈ c.main.map Module.path ↔ p ∈ mainSeen.map Module.path := by
  simp only [List.mem_map, h.mem_main]

/-- The paths of the tests are those that only their walk has seen. -/
theorem Collected.mem_testPaths (h : Collected t cwd base request mainSeen testSeen c) {p : Path} :
    p ∈ c.test.map Module.path ↔
      p ∈ testSeen.map Module.path ∧ p ∉ mainSeen.map Module.path := by
  constructor
  · intro hp
    obtain ⟨m, hm, rfl⟩ := List.mem_map.1 hp
    obtain ⟨hseen, hnew⟩ := h.mem_test.1 hm
    exact ⟨List.mem_map_of_mem hseen, hnew⟩
  · rintro ⟨hp, hnew⟩
    obtain ⟨m, hm, rfl⟩ := List.mem_map.1 hp
    exact List.mem_map_of_mem (h.mem_test.2 ⟨hm, hnew⟩)

/-- **What is collected** is what the entry points reach. -/
theorem Collected.partition (h : Collected t cwd base request mainSeen testSeen c) :
    Partition t cwd c.mainEntries c.testEntries c.main c.test := by
  obtain ⟨_, hmain, htest⟩ := h.walks
  have hpaths : {p | p ∈ c.main.map Module.path} = {p | p ∈ mainSeen.map Module.path} :=
    Set.ext fun p => h.mem_mainPaths
  refine ⟨?_, ⟨{p | p ∈ testSeen.map Module.path}, walk_isLeast htest, ?_⟩, ?_, ?_, ?_, ?_⟩
  · rw [hpaths]
    exact walk_isLeast hmain
  · rw [hpaths]
    exact Set.ext fun p => h.mem_testPaths
  · intro p hp hq
    exact (h.mem_testPaths.1 hq).2 (h.mem_mainPaths.1 hp)
  · rw [h.main]
    exact sortModules_ascending h.invariants.1.nodup
  · rw [h.test]
    refine sortModules_ascending ?_
    exact h.invariants.2.nodup.sublist (List.filter_sublist.map Module.path)
  · exact fun m hm => h.loaded hm

/-- Every entry point of the program is the path of one of its modules. -/
theorem Collected.mainEntry (h : Collected t cwd base request mainSeen testSeen c) {e : Path}
    (he : e ∈ c.mainEntries) : ∃ m ∈ c.main, m.path = e :=
  List.mem_map.1 (h.partition.main_isLeast.1.1 e he)

/-- What the walk of the tests has seen was collected, in one group or the other. -/
theorem Collected.exists_of_testSeen (h : Collected t cwd base request mainSeen testSeen c) {p : Path}
    (hp : p ∈ testSeen.map Module.path) : ∃ m ∈ c.modules, m.path = p := by
  by_cases hmain : p ∈ mainSeen.map Module.path
  · obtain ⟨m, hm, rfl⟩ := List.mem_map.1 hmain
    exact ⟨m, List.mem_append_left _ (h.mem_main.2 hm), rfl⟩
  · obtain ⟨m, hm, rfl⟩ := List.mem_map.1 hp
    exact ⟨m, List.mem_append_right _ (h.mem_test.2 ⟨hm, hmain⟩), rfl⟩

/-- Every entry point of the tests is the path of a module, which may be one of the program. -/
theorem Collected.testEntry (h : Collected t cwd base request mainSeen testSeen c) {e : Path}
    (he : e ∈ c.testEntries) : ∃ m ∈ c.modules, m.path = e := by
  obtain ⟨_, _, htest⟩ := h.walks
  exact h.exists_of_testSeen ((walk_isLeast htest).1.1 e he)

/-- The imports of what was collected can be looked up. -/
theorem Collected.short (h : Collected t cwd base request mainSeen testSeen c) {m : Module}
    (hm : m ∈ c.modules) : ∀ q ∈ m.imports, q.isTooLong = false := by
  rcases List.mem_append.1 hm with hm | hm
  · exact h.invariants.1.short m (h.mem_main.1 hm)
  · exact h.invariants.2.short m (h.mem_test.1 hm).1

/-- What a module of the program imports is a module of the program, if it is there. -/
theorem Collected.main_closed (h : Collected t cwd base request mainSeen testSeen c) {m : Module}
    (hm : m ∈ c.main) {q : Path} (hq : q ∈ m.imports) (hthere : isThere t cwd q = true) :
    ∃ k ∈ c.main, k.path = q := by
  have hload := h.loaded (List.mem_append_left c.test hm)
  exact List.mem_map.1
    (h.partition.main_isLeast.1.2 m.path (List.mem_map_of_mem hm) q ⟨m, hload, hq, hthere⟩)

/-- **What a module imports was collected**, if it is there. -/
theorem Collected.closed (h : Collected t cwd base request mainSeen testSeen c) {m : Module}
    (hm : m ∈ c.modules) {q : Path} (hq : q ∈ m.imports) (hthere : isThere t cwd q = true) :
    ∃ k ∈ c.modules, k.path = q := by
  rcases List.mem_append.1 hm with hmain | htest
  · obtain ⟨k, hk, hkq⟩ := h.main_closed hmain hq hthere
    exact ⟨k, List.mem_append_left c.test hk, hkq⟩
  · obtain ⟨_, _, hwalk⟩ := h.walks
    have hseen : m.path ∈ testSeen.map Module.path :=
      List.mem_map_of_mem (h.mem_test.1 htest).1
    exact h.exists_of_testSeen
      ((walk_isLeast hwalk).1.2 m.path hseen q ⟨m, h.loaded hm, hq, hthere⟩)

/-! ### What is put out -/

/-- An adapted group has a file for every module, and names the entry points that have one. -/
theorem adaptGroup_aligned {l : Layout} {ms all : List Module} {entries : List Path}
    (hentries : ∀ e ∈ entries, ∃ m ∈ all, m.path = e) :
    Aligned l.outPath ms all entries (adaptGroup cwd l request ms entries) where
  files := by
    simp only [adaptGroup, List.map_map]
    exact List.map_congr_left fun m _ => rfl
  entryPoints := by
    rw [adaptGroup, List.forall₂_map_right_iff, List.forall₂_same]
    intro e he
    obtain ⟨m, hm, rfl⟩ := hentries e he
    exact ⟨m, hm, rfl, rfl⟩

/-- **All output paths are different.** -/
theorem Collected.nodup_outPaths (h : Collected t cwd base request mainSeen testSeen c)
    (hbase : base.Proper) : (c.modules.map fun m => c.layout.outPath m.path).Nodup := by
  have hpart := h.partition
  have hnodup : (c.modules.map Module.path).Nodup := by
    rw [Collection.modules, List.map_append, List.nodup_append]
    refine ⟨hpart.main_ascending.imp And.right, hpart.test_ascending.imp And.right, ?_⟩
    intro p hp q hq hpq
    exact hpart.disjoint hp (hpq ▸ hq)
  refine List.pairwise_map.2 ((List.pairwise_map.1 hnodup).imp_of_mem ?_)
  intro m k hm hk hne heq
  exact hne (h.outPath_inj hbase hm hk heq)

/-! ### Entry points that are there -/

theorem entryPaths_append (base : Path) (mains tests : List String) :
    entryPaths base (mains ++ tests) = entryPaths base mains ++ entryPaths base tests :=
  List.map_append

/-- Texts are paths of entry points. -/
theorem entryPath_names (base : Path) (names : List String) :
    List.Forall₂ (fun e p => entryPath base e = .ok p) (names.map .str) (entryPaths base names) := by
  rw [entryPaths, List.forall₂_map_left_iff, List.forall₂_map_right_iff, List.forall₂_same]
  exact fun _ _ => rfl

/-- What texts name is told by them. -/
theorem eq_entryPaths {names : List String} {ps : List Path}
    (h : List.Forall₂ (fun e p => entryPath base e = .ok p) (names.map .str) ps) :
    ps = entryPaths base names :=
  Except.ok.inj ((Except.mapM_eq_ok_iff.2 h).symm.trans
    (Except.mapM_eq_ok_iff.2 (entryPath_names base names)))

/-- **Programs of which all paths can be handled**: the entry points start from one root, and all
that they reach have imports that can be looked up. -/
structure Handled (t : FileTree) (cwd : Path) (entries : List Path) : Prop where
  root : ∃ root, root ≠ .double ∧ ∀ e ∈ entries, e.root = root
  imports : ∃ S ∈ Closed t cwd entries, LookedUp t cwd S

/-- The request with texts for its entry points. -/
def Request.naming (request : Request) (mains tests : List String) : Request :=
  { request with entryPoints := mains.map .str, testEntryPoints := tests.map .str }

variable {mains tests : List String}

/-- **Collecting succeeds** if the entry points are there, all files are texts, and all paths can be
handled. -/
theorem exists_collected (request : Request) (htexts : AllTexts t)
    (hthere : ∀ e ∈ entryPaths base (mains ++ tests), isThere t cwd e = true)
    (h : Handled t cwd (entryPaths base (mains ++ tests))) :
    ∃ mainSeen testSeen c,
      Collected t cwd base (request.naming mains tests) mainSeen testSeen c := by
  obtain ⟨⟨root, hdouble, hroots⟩, S, ⟨hentries, hclosed⟩, hshort⟩ := h
  rw [entryPaths_append, List.forall_mem_append] at hthere hroots hentries
  obtain ⟨⟨mainSeen, mainWarnings⟩, hmain⟩ :
      ∃ r, walk t cwd (entryPaths base mains) [] [] = .ok r :=
    walk_ok htexts [] hclosed hshort fun e he => ⟨hentries.1 e he, hthere.1 e he⟩
  obtain ⟨⟨testSeen, warnings⟩, htest⟩ :
      ∃ r, walk t cwd (entryPaths base tests) [] mainWarnings = .ok r :=
    walk_ok htexts mainWarnings hclosed hshort fun e he => ⟨hentries.2 e he, hthere.2 e he⟩
  let main := sortModules mainSeen
  let test := sortModules (testSeen.filter fun m => decide (m.path ∉ mainSeen.map Module.path))
  have hsame : ∀ p ∈ (main ++ test).map Module.path, p.root = root := by
    intro p hp
    obtain ⟨m, hm, rfl⟩ := List.mem_map.1 hp
    rcases List.mem_append.1 hm with hm | hm
    · exact root_of_walk hroots.1 (by simp) hmain m (mem_sortModules.1 hm)
    · exact root_of_walk hroots.2 (by simp) htest m (List.mem_filter.1 (mem_sortModules.1 hm)).1
  have hlaid : (∀ p ∈ (main ++ test).map Module.path, p.root = .single) ∨
      ∀ p ∈ (main ++ test).map Module.path, p.root = .none := by
    cases root with
    | none => exact .inr hsame
    | single => exact .inl hsame
    | double => exact absurd rfl hdouble
  exact ⟨mainSeen, testSeen,
    { main := main, test := test
      mainEntries := entryPaths base mains, testEntries := entryPaths base tests
      layout := ⟨(main ++ test).map Module.path,
        commonDirectory (((main ++ test).map Module.path).map fun p => p.parts.dropLast)⟩
      warnings := warnings },
    { mainEntries := entryPath_names base mains
      testEntries := entryPath_names base tests
      walks := ⟨mainWarnings, hmain, htest⟩
      main := rfl
      test := rfl
      layout := ofModules_eq_ok_iff.2 ⟨hlaid, rfl⟩ }⟩

/-- **All paths were handled** in what was collected. -/
theorem Collected.handled
    (h : Collected t cwd base (request.naming mains tests) mainSeen testSeen c) :
    Handled t cwd (entryPaths base (mains ++ tests)) := by
  have hmains : c.mainEntries = entryPaths base mains := eq_entryPaths h.mainEntries
  have htests : c.testEntries = entryPaths base tests := eq_entryPaths h.testEntries
  have hentry : ∀ e ∈ entryPaths base (mains ++ tests), ∃ m ∈ c.modules, m.path = e := by
    rw [entryPaths_append, List.forall_mem_append]
    refine ⟨fun e he => ?_, fun e he => h.testEntry (htests ▸ he)⟩
    obtain ⟨m, hm, hpath⟩ := h.mainEntry (hmains ▸ he)
    exact ⟨m, List.mem_append_left _ hm, hpath⟩
  constructor
  · obtain ⟨root, hdouble, hroots⟩ := h.exists_root
    refine ⟨root, hdouble, fun e he => ?_⟩
    obtain ⟨m, hm, rfl⟩ := hentry e he
    exact hroots m hm
  · refine ⟨{p | ∃ m ∈ c.modules, m.path = p}, ⟨hentry, ?_⟩, ?_⟩
    · rintro p ⟨m, hm, rfl⟩ q ⟨k, hk, hq, hthere⟩
      rw [h.loaded hm, Except.ok.injEq] at hk
      exact h.closed hm (hk ▸ hq) hthere
    · rintro p ⟨m, hm, rfl⟩ k hk
      rw [h.loaded hm, Except.ok.injEq] at hk
      exact hk ▸ h.short hm

/-- Transforming gives what was collected, adapted, if something was. -/
theorem run_transform_of_ok {w : Workspace} (h : collect w.tree w.cwd base request = .ok c) :
    ((transform base request).run w).1 = .ok (c.adapt w.cwd request) := by
  have htree : transformTree w.tree w.cwd base request = .ok (c.adapt w.cwd request) := by
    rw [transformTree, h]
    rfl
  rw [transform, Action.run_bind_of_ok (Action.run_look_of_ok htree)]
  rfl

/-- A program that is collected in walks of at most so many steps is transformed. -/
theorem exists_run_transform (n : ℕ) {w : Workspace}
    (h : (collectWithin n w.tree w.cwd base request).isSome) :
    ∃ output, ((transform base request).run w).1 = .ok output := by
  obtain ⟨c, hc⟩ := Option.isSome_iff_exists.1 h
  exact ⟨_, run_transform_of_ok (collect_of_collectWithin n hc)⟩

/-- What is seen of it when it is adapted is seen of the output. -/
theorem exists_run_transform_of_map {α : Type} (n : ℕ) {w : Workspace} {f : TransformOutput → α}
    {a : α}
    (h : (collectWithin n w.tree w.cwd base request).map (fun c => f (c.adapt w.cwd request)) =
      some a) :
    ∃ output, ((transform base request).run w).1 = .ok output ∧ f output = a := by
  obtain ⟨c, hc, ha⟩ := Option.map_eq_some_iff.1 h
  exact ⟨_, run_transform_of_ok (collect_of_collectWithin n hc), ha⟩

/-- Transforming succeeds only with what was collected, adapted. -/
theorem collect_of_run_transform {w v : Workspace} {output : TransformOutput}
    (hrun : (transform base request).run w = (.ok output, v)) :
    ∃ c, collect w.tree w.cwd base request = .ok c ∧ output = c.adapt w.cwd request := by
  obtain ⟨found, u, hlook, hrest⟩ := Action.of_run_bind_eq_ok hrun
  cases hc : collect w.tree w.cwd base request with
  | error e =>
    have htree : transformTree w.tree w.cwd base request = .error e := by
      rw [transformTree, hc]
      rfl
    rw [Action.run_look_of_error htree] at hlook
    simp at hlook
  | ok c =>
    have htree : transformTree w.tree w.cwd base request = .ok (c.adapt w.cwd request) := by
      rw [transformTree, hc]
      rfl
    rw [Action.run_look_of_ok htree, Prod.mk.injEq, Except.ok.injEq] at hlook
    have hout : found = output := by
      have hfst := congrArg Prod.fst hrest
      exact Except.ok.inj hfst
    exact ⟨c, rfl, by rw [← hout, ← hlook.1]⟩

/-- **What was collected and adapted** is a transformed program. -/
theorem Collected.transformed
    (h : Collected t cwd base (request.naming mains tests) mainSeen testSeen c)
    (hbase : base.Proper) :
    Transformed t cwd base mains tests c (c.adapt cwd (request.naming mains tests)) := by
  have hmains : c.mainEntries = entryPaths base mains := eq_entryPaths h.mainEntries
  have htests : c.testEntries = entryPaths base tests := eq_entryPaths h.testEntries
  refine { partition := ?partition, nodup := h.nodup_outPaths hbase, main := ?main, test := ?test }
  case partition =>
    rw [← hmains, ← htests]
    exact h.partition
  case main =>
    rw [← hmains]
    exact adaptGroup_aligned fun e he => h.mainEntry he
  case test =>
    rw [← htests]
    exact adaptGroup_aligned fun e he => h.testEntry he

/-- Two modules that import each other, and a test that imports one of them. -/
def ringTree : FileTree :=
  (((FileTree.empty.insert ["p"] .directory).insert ["p", "mod.ts"]
    (.file "import \"./dep.ts\";\n".toUTF8)).insert ["p", "dep.ts"]
    (.file "import \"./mod.ts\";\n".toUTF8)).insert ["p", "mod.test.ts"]
    (.file "import \"./mod.ts\";\n".toUTF8)

/-- Nothing but entry points is asked for. -/
def plainRequest : Request where
  entryPoints := []
  testEntryPoints := []
  shimPackage := "deno.ns"
  mappings := []

/-- A module in the root that imports itself from the directory above. -/
def risingTree : FileTree :=
  FileTree.empty.insert ["mod.ts"] (.file "import \"../mod.ts\";\n".toUTF8)

/-- The module as it is reached after so many imports. -/
def risingModule (n : ℕ) : Module where
  path := ⟨.none, List.replicate n Path.up ++ ["mod.ts"]⟩
  text := "import \"../mod.ts\";\n"

theorem imports_risingModule (n : ℕ) :
    (risingModule n).imports = [(risingModule (n + 1)).path] := by
  have hspecifiers : (risingModule n).specifiers = ["../mod.ts"] := by
    show Source.specifiers "import \"../mod.ts\";\n".toList = ["../mod.ts"]
    decide +kernel
  have hread : Path.ofString "../mod.ts" = ⟨.none, [Path.up, "mod.ts"]⟩ := by decide
  have hjoined : (risingModule n).path.parent.joinText "../mod.ts" = (risingModule (n + 1)).path := by
    simp only [risingModule, Path.parent, List.dropLast_concat, Path.joinText, hread, Path.join,
      List.replicate_succ', List.append_assoc, List.singleton_append]
  have hsettled : (risingModule (n + 1)).path.Settled := by
    have hup : Path.up ∉ ["mod.ts"] := by decide
    refine ⟨fun c hc => ?_, ⟨_, ?_, hup⟩, fun habs => by cases habs⟩
    · rcases List.mem_append.1 hc with hc | hc
      · rw [List.eq_of_mem_replicate hc]
        exact Path.properPart_up
      · rw [List.mem_singleton.1 hc]
        decide
    · rw [Path.climbs_of_parts rfl hup]
      rfl
  rw [Module.imports, hspecifiers, List.filter_cons_of_pos (by decide), List.filter_nil,
    List.map_singleton, Module.target, hjoined, hsettled.normal_eq]

/-- However often it climbs, the path leads to the module. -/
theorem load_risingModule (n : ℕ) (hshort : (risingModule n).path.isTooLong = false) :
    load risingTree (.ofString "/") (risingModule n).path = .ok (risingModule n) := by
  have hnul : (risingModule n).path.parts.any Path.hasNul = false := by
    rw [List.any_eq_false]
    intro c hc
    rcases List.mem_append.1 hc with hc | hc
    · rw [List.eq_of_mem_replicate hc]
      decide
    · rw [List.mem_singleton.1 hc]
      decide
  have henter : ∀ k, risingTree.enter [] (List.replicate k Path.up) = .ok [] := by
    intro k
    induction k with
    | zero => rfl
    | succ k ih =>
      rw [List.replicate_succ, FileTree.enter, if_pos rfl]
      exact ih
  have hlocate : risingTree.locate (.ofString "/") (risingModule n).path =
      .ok (["mod.ts"], some (.file "import \"../mod.ts\";\n".toUTF8)) := by
    rw [FileTree.locate_concat hnul rfl]
    show (risingTree.enter [] (List.replicate n Path.up)).map _ = _
    rw [henter]
    rfl
  refine load_eq_ok_iff.2 ⟨hshort, _, FileTree.readText_eq_ok_iff.2 ⟨_, _, hlocate, ?_⟩, rfl⟩
  rfl

/-- **A module that climbs for ever** is not handled: among its imports there is one that is too
long. -/
theorem not_handled_rising :
    ¬ Handled risingTree (.ofString "/") (entryPaths (.ofString ".") ["./mod.ts"]) := by
  rintro ⟨-, S, ⟨hentries, hclosed⟩, hshort⟩
  have hreached : ∀ n, (risingModule n).path ∈ S ∧ (risingModule n).path.isTooLong = false := by
    intro n
    induction n with
    | zero => exact ⟨hentries _ (List.mem_singleton.2 (by decide)), by decide +kernel⟩
    | succ n ih =>
      have hload := load_risingModule n ih.2
      have himport : (risingModule (n + 1)).path ∈ (risingModule n).imports := by
        rw [imports_risingModule]
        exact List.mem_singleton_self _
      have hnext := hshort _ ih.1 _ hload _ himport
      exact ⟨hclosed _ ih.1 _
        ⟨_, hload, himport, isThere_of_load (load_risingModule (n + 1) hnext)⟩, hnext⟩
  have hlong (n : ℕ) : (risingModule n).path.parts.length = n + 1 := by simp [risingModule]
  have hlength := length_parts_of_load (load_risingModule 4096 (hreached 4096).2)
  rw [hlong] at hlength
  omega

end DenoPackager.Transform
