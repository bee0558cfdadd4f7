import DenoPackager.Proofs.Basics.Repetition
import DenoPackager.Proofs.Links.Apart
import DenoPackager.Proofs.Script.Phrases
import Mathlib.Data.List.Sort

/-!
# Phrases count wherever they stand

A phrase that names a specifier counts, whether it stands in the code of a module, in a string or in
a comment: the specifier is followed to a module that is there, reported if nothing is there or if
it is remote and not mapped, recorded as a dependency if it is mapped, and replaced in the emitted
text. Nothing else of inert text counts: where no phrase touches a stretch of it, the stretch may be
reworded, and the same modules are collected, the same is said and recorded, and the same is
replaced.

What routing does to the replaced text is not looked at here.

## Main definitions

* `Occurrence.Counts`: what becomes of a phrase.
* `RewordedTree`: a tree whose modules are reworded.
* `Unaffected`: what rewording leaves alone.

## Main results

* `Collected.counts`: every phrase counts.
* `walk_reload`, `Collected.reload`: a reworded tree is walked in the same way.
* `transform_phrases`: which texts have an effect on a transformed program.
* `counting_comment`: a comment that is followed, reported, recorded and rewritten.
-/

namespace DenoPackager

/-- **A package is recorded** in a group: it, or one that it is equal to, is among the dependencies.
Of several equal ones the first is kept. -/
def FileGroup.Records (g : FileGroup) (d : Dependency) : Prop :=
  ∃ e ∈ g.dependencies, e = d ∨ (d == e) = true

/-- **Groups that differ in the texts of their files only**, and in whether these need the package
for the namespace. -/
structure FileGroup.Alike (g g' : FileGroup) : Prop where
  files : g'.files.map TransformedFile.path = g.files.map TransformedFile.path
  entryPoints : g'.entryPoints = g.entryPoints
  dependencies : g'.dependencies = g.dependencies

namespace Transform

open Source

/-! ### What phrases do -/

variable {m : Module}

/-- **An occurrence counts**, wherever it stands: it is followed or reported, recorded and
replaced. -/
structure Occurrence.Counts (o : Occurrence m) (t : FileTree) (cwd : Path) (request : Request)
    (c : Collection) (output : TransformOutput) : Prop where
  followed : isRelative o.specifier = true → isThere t cwd o.target = true →
    o.target ∈ c.modules.map Module.path
  followed_main : isRelative o.specifier = true → isThere t cwd o.target = true → m ∈ c.main →
    o.target ∈ c.main.map Module.path
  missing : isRelative o.specifier = true → isThere t cwd o.target = false →
    missingText m.path o.target ∈ output.warnings
  unmapped : isRemote o.specifier = true → request.mappings.lookup o.specifier = none →
    unmappedText o.specifier ∈ output.warnings
  recorded : ∀ d, request.mappings.lookup o.specifier = some d →
    (m ∈ c.main → output.main.Records d) ∧ (m ∈ c.test → output.test.Records d)
  replaced : replaceSpecifiers (c.replacing cwd request m) m.text.toList =
    o.textBefore (c.replacing cwd request m) ++
      ((c.replacing cwd request m o.specifier).toList ++ o.textAfter (c.replacing cwd request m))
  emitted : ∃ f ∈ output.allFiles, f.path = c.layout.outPath m.path ∧
    f.text.toList = (routeNamespace request.shimPackage
      (replaceSpecifiers (c.replacing cwd request m) m.text.toList)).1

/-- A message that is given is there in the end. -/
theorem mem_foldl_addWarning_of_mem {messages warnings : List String} {x : String}
    (h : x ∈ messages) : x ∈ messages.foldl addWarning warnings := by
  induction messages generalizing warnings with
  | nil => exact absurd h List.not_mem_nil
  | cons y messages ih =>
    obtain rfl | hx := List.mem_cons.1 h
    · refine (isPrefix_foldl_addWarning messages _).subset ?_
      rw [addWarning]
      split
      · assumption
      · exact List.mem_append_right _ List.mem_cons_self
    · exact ih hx

variable {t t' : FileTree} {base cwd : Path} {request : Request} {c : Collection}
  {mainSeen testSeen seen seen' : List Module} {queue : List Path}
  {warnings warnings' : List String}

/-- **Every import that leads nowhere is reported** by a walk. -/
theorem missing_of_walk (hloaded : ∀ k ∈ seen, load t cwd k.path = .ok k)
    (hseen : ∀ k ∈ seen, ∀ q ∈ k.imports, isThere t cwd q = false →
      missingText k.path q ∈ warnings)
    (hwalk : walk t cwd queue seen warnings = .ok (seen', warnings')) :
    ∀ k ∈ seen', ∀ q ∈ k.imports, isThere t cwd q = false → missingText k.path q ∈ warnings' := by
  fun_induction walk t cwd queue seen warnings with
  | case1 seen warnings =>
    obtain ⟨rfl, rfl⟩ := Prod.mk.inj (Except.ok.inj hwalk)
    exact hseen
  | case2 seen warnings p queue hp ih => exact ih hloaded hseen hwalk
  | case3 seen warnings p queue hp e he => cases hwalk
  | case4 seen warnings p queue hp m hm seen₁ ih =>
    have hm' : load t cwd m.path = .ok m := by rw [path_of_visit hm, (visit_eq_ok_iff.1 hm).1]
    have hloaded₁ : ∀ k ∈ seen₁, load t cwd k.path = .ok k := by
      intro k hk
      obtain hk | hk := List.mem_append.1 hk
      · exact hloaded k hk
      · rw [List.mem_singleton.1 hk, hm']
    refine ih hloaded₁ ?_ hwalk
    intro k hk q hq hmissing
    obtain hk | hk := List.mem_append.1 hk
    · exact (isPrefix_foldl_addWarning _ _).subset (hseen k hk q hq hmissing)
    · obtain rfl := List.mem_singleton.1 hk
      refine mem_foldl_addWarning_of_mem (List.mem_map_of_mem (List.mem_filter.2 ⟨hq, ?_⟩))
      -- What is not there was not seen either.
      have hnew : q ∉ seen₁.map Module.path := by
        intro hmem
        obtain ⟨j, hj, rfl⟩ := List.mem_map.1 hmem
        rw [isThere_of_load (hloaded₁ j hj)] at hmissing
        cases hmissing
      rw [Bool.and_eq_true, decide_eq_true_eq, hmissing]
      exact ⟨hnew, rfl⟩

/-- **What is missing is reported** for all that was collected. -/
theorem Collected.missing (h : Collected t cwd base request mainSeen testSeen c) (hm : m ∈ c.modules)
    {q : Path} (hq : q ∈ m.imports) (hmissing : isThere t cwd q = false) :
    missingText m.path q ∈ c.warnings := by
  obtain ⟨warnings, hmain, htest⟩ := h.walks
  obtain hm | hm := List.mem_append.1 hm
  · refine (warnings_of_walk htest).1.subset ?_
    exact missing_of_walk (by simp) (by simp) hmain m (h.mem_main.1 hm) q hq hmissing
  · exact missing_of_walk (by simp) (by simp) htest m (h.mem_test.1 hm).1 q hq hmissing

/-- A mapped specifier of a module is recorded in its group. -/
theorem records_adaptGroup {l : Layout} {ms : List Module} {entries : List Path} {s : String}
    {d : Dependency} (hm : m ∈ ms) (hs : s ∈ m.specifiers)
    (hd : request.mappings.lookup s = some d) :
    (adaptGroup cwd l request ms entries).Records d :=
  (firstUses_eraseDups _).complete d
    (List.mem_flatMap.2 ⟨m, hm, List.mem_filterMap.2 ⟨s, hs, hd⟩⟩)

/-- **Every phrase counts**, wherever it stands in a module that was collected. -/
theorem Collected.counts (h : Collected t cwd base request mainSeen testSeen c) (hm : m ∈ c.modules)
    (o : Occurrence m) : o.Counts t cwd request c (c.adapt cwd request) where
  followed hrel hthere := List.mem_map.2 (h.closed hm (o.target_mem hrel) hthere)
  followed_main hrel hthere hmain := List.mem_map.2 (h.main_closed hmain (o.target_mem hrel) hthere)
  missing hrel hmissing :=
    (isPrefix_foldl_addWarning _ _).subset (h.missing hm (o.target_mem hrel) hmissing)
  unmapped hremote hunmapped := by
    refine mem_foldl_addWarning_of_mem (List.mem_flatMap.2 ⟨m, hm, ?_⟩)
    refine List.mem_map_of_mem (List.mem_filter.2 ⟨o.specifier_mem, ?_⟩)
    rw [hunmapped, hremote]
    rfl
  recorded d hd :=
    ⟨fun hmain => records_adaptGroup hmain o.specifier_mem hd,
      fun htest => records_adaptGroup htest o.specifier_mem hd⟩
  replaced := o.replaceSpecifiers_eq (c.replacing cwd request m)
  emitted := by
    refine ⟨(adaptModule cwd c.layout request m).1, ?_, rfl, String.toList_ofList⟩
    refine List.mem_append.2 ((List.mem_append.1 hm).imp ?_ ?_) <;>
      exact fun hm => List.mem_map_of_mem (List.mem_map_of_mem hm)

/-! ### Reworded modules -/

/-- **A module is reworded**: nothing in it changes, or a stretch of inert text that no phrase
touches. -/
def Module.RewordedAs (m k : Module) : Prop :=
  k = m ∨ k.path = m.path ∧ ∃ u u', Reworded u u' m.text.toList k.text.toList

/-- **A tree whose modules are reworded**, with the same files in it. -/
structure RewordedTree (t t' : FileTree) (cwd : Path) : Prop where
  isThere_eq : ∀ p, isThere t' cwd p = isThere t cwd p
  loaded : ∀ p m, load t cwd p = .ok m → ∃ k, load t' cwd p = .ok k ∧ m.RewordedAs k

/-- A reworded module has the same specifiers. -/
theorem Module.RewordedAs.specifiers_eq {k : Module} (h : m.RewordedAs k) :
    k.specifiers = m.specifiers := by
  obtain rfl | ⟨-, _, _, hreworded⟩ := h
  exacts [rfl, hreworded.specifiers_eq]

/-- **The specifiers of a reworded module are replaced** as before, and nothing else changes. -/
theorem Module.RewordedAs.sameBut {k : Module} (h : m.RewordedAs k) (f : String → String) :
    ∃ u u', SameBut u u' m.text.toList k.text.toList ∧
      SameBut u u' (replaceSpecifiers f m.text.toList) (replaceSpecifiers f k.text.toList) := by
  obtain rfl | ⟨-, u, u', hreworded⟩ := h
  · exact ⟨[], [], ⟨_, [], (List.append_nil _).symm, (List.append_nil _).symm⟩,
      _, [], (List.append_nil _).symm, (List.append_nil _).symm⟩
  · exact ⟨u, u', hreworded.sameBut, hreworded.replaceSpecifiers f⟩

/-! ### Walking a reworded tree -/

/-- The module as it stands in another tree. -/
def reload (t' : FileTree) (cwd : Path) (m : Module) : Module :=
  match load t' cwd m.path with
  | .ok k => k
  | .error _ => m

@[simp] theorem path_reload (t' : FileTree) (cwd : Path) (m : Module) : (reload t' cwd m).path = m.path := by
  rw [reload]
  split
  · rename_i k hk
    exact path_of_load hk
  · rfl

@[simp] theorem map_path_reload (t' : FileTree) (cwd : Path) (ms : List Module) :
    (ms.map (reload t' cwd)).map Module.path = ms.map Module.path := by
  rw [List.map_map]
  exact List.map_congr_left fun m _ => path_reload t' cwd m

/-- A module of a tree is loaded from the reworded one, too. -/
theorem RewordedTree.load_reload (h : RewordedTree t t' cwd) (hm : load t cwd m.path = .ok m) :
    load t' cwd m.path = .ok (reload t' cwd m) ∧ m.RewordedAs (reload t' cwd m) := by
  obtain ⟨k, hk, hreworded⟩ := h.loaded m.path m hm
  have hreload : reload t' cwd m = k := by rw [reload, hk]
  rw [hreload]
  exact ⟨hk, hreworded⟩

theorem RewordedTree.imports_reload (h : RewordedTree t t' cwd) (hm : load t cwd m.path = .ok m) :
    (reload t' cwd m).imports = m.imports := by
  rw [Module.imports, Module.imports, (h.load_reload hm).2.specifiers_eq, path_reload]

/-- A reloaded module is visited as it was before. -/
theorem RewordedTree.visit_reload (h : RewordedTree t t' cwd) (hm : visit t cwd m.path = .ok m) :
    visit t' cwd m.path = .ok (reload t' cwd m) := by
  obtain ⟨hload, hshort⟩ := visit_eq_ok_iff.1 hm
  exact visit_eq_ok_iff.2 ⟨(h.load_reload hload).1, (h.imports_reload hload).symm ▸ hshort⟩

/-- A reloaded module has the same new imports. -/
theorem RewordedTree.newImports_reload (h : RewordedTree t t' cwd) (hm : load t cwd m.path = .ok m) :
    newImports t' cwd (seen.map (reload t' cwd)) (reload t' cwd m) = newImports t cwd seen m := by
  rw [newImports, newImports, h.imports_reload hm, map_path_reload]
  simp only [h.isThere_eq]

/-- The same is said about its imports that are not there. -/
theorem RewordedTree.missingWarnings_reload (h : RewordedTree t t' cwd)
    (hm : load t cwd m.path = .ok m) :
    missingWarnings t' cwd (seen.map (reload t' cwd)) (reload t' cwd m) = missingWarnings t cwd seen m := by
  rw [missingWarnings, missingWarnings, h.imports_reload hm, map_path_reload, path_reload]
  simp only [h.isThere_eq]

/-- **A reworded tree is walked in the same way.** -/
theorem walk_reload (h : RewordedTree t t' cwd)
    (hwalk : walk t cwd queue seen warnings = .ok (seen', warnings')) :
    walk t' cwd queue (seen.map (reload t' cwd)) warnings = .ok (seen'.map (reload t' cwd), warnings') := by
  fun_induction walk t cwd queue seen warnings with
  | case1 seen warnings =>
    obtain ⟨rfl, rfl⟩ := Prod.mk.inj (Except.ok.inj hwalk)
    rw [walk]
  | case2 seen warnings p queue hp ih =>
    rw [walk, dif_pos (by rwa [map_path_reload])]
    exact ih hwalk
  | case3 seen warnings p queue hp e he => cases hwalk
  | case4 seen warnings p queue hp m hm seen₁ ih =>
    obtain rfl : m.path = p := path_of_visit hm
    have hload := (visit_eq_ok_iff.1 hm).1
    have hseen : seen.map (reload t' cwd) ++ [reload t' cwd m] = seen₁.map (reload t' cwd) := by
      rw [List.map_append, List.map_singleton]
    rw [walk_cons_of_visit (by rwa [map_path_reload]) (h.visit_reload hm), hseen,
      h.newImports_reload hload, h.missingWarnings_reload hload]
    exact ih hwalk

/-! ### Collecting from a reworded tree -/

/-- **What is collected from a reworded tree.** -/
def Collection.reload (t' : FileTree) (cwd : Path) (c : Collection) : Collection :=
  { c with
    main := c.main.map (Transform.reload t' cwd)
    test := c.test.map (Transform.reload t' cwd) }

/-- Modules are sorted by their paths. -/
theorem sortModules_reload (t' : FileTree) (cwd : Path) (ms : List Module) :
    sortModules (ms.map (reload t' cwd)) = (sortModules ms).map (reload t' cwd) :=
  (List.map_mergeSort fun m _ k _ => by rw [path_reload, path_reload]).symm

/-- **The same is collected** from a reworded tree. -/
theorem Collected.reload (h : Collected t cwd base request mainSeen testSeen c)
    (ht : RewordedTree t t' cwd) :
    Collected t' cwd base request (mainSeen.map (reload t' cwd)) (testSeen.map (reload t' cwd))
      (c.reload t' cwd) where
  mainEntries := h.mainEntries
  testEntries := h.testEntries
  walks := by
    obtain ⟨warnings, hmain, htest⟩ := h.walks
    exact ⟨warnings, walk_reload ht hmain, walk_reload ht htest⟩
  main := by rw [sortModules_reload, ← h.main]; rfl
  test := by
    rw [List.filter_map, sortModules_reload, map_path_reload]
    simp only [Function.comp_def, path_reload]
    rw [← h.test]
    rfl
  layout := by
    have hpaths : (c.reload t' cwd).modules.map Module.path = c.modules.map Module.path := by
      rw [Collection.modules, Collection.modules, List.map_append, List.map_append]
      simp only [Collection.reload, map_path_reload]
    rw [hpaths, h.layout]
    rfl

/-! ### What rewording leaves alone -/

/-- **What rewording leaves alone**: the modules with their places in the output, the entry points,
the dependencies, all that is said, and all of the replaced texts but the stretches. -/
structure Unaffected (cwd : Path) (request : Request) (c c' : Collection) : Prop where
  main : (c.adapt cwd request).main.Alike (c'.adapt cwd request).main
  test : (c.adapt cwd request).test.Alike (c'.adapt cwd request).test
  warnings : (c'.adapt cwd request).warnings = (c.adapt cwd request).warnings
  texts : List.Forall₂ (fun m k => k.path = m.path ∧ ∃ u u',
      SameBut u u' m.text.toList k.text.toList ∧
      SameBut u u' (replaceSpecifiers (c.replacing cwd request m) m.text.toList)
        (replaceSpecifiers (c'.replacing cwd request k) k.text.toList)) c.modules c'.modules

theorem Collected.specifiers_reload (h : Collected t cwd base request mainSeen testSeen c)
    (ht : RewordedTree t t' cwd) (hm : m ∈ c.modules) :
    (Transform.reload t' cwd m).specifiers = m.specifiers :=
  (ht.load_reload (h.loaded hm)).2.specifiers_eq

/-- A group of reworded modules is adapted in the same way. -/
theorem adaptGroup_reload {l : Layout} {ms : List Module} {entries : List Path}
    (hms : ∀ m ∈ ms, (reload t' cwd m).specifiers = m.specifiers) :
    (adaptGroup cwd l request ms entries).Alike
      (adaptGroup cwd l request (ms.map (reload t' cwd)) entries) where
  files := by
    simp only [adaptGroup, List.map_map]
    refine List.map_congr_left fun m _ => ?_
    simp only [Function.comp_apply, adaptModule, path_reload]
  entryPoints := rfl
  dependencies := by
    simp only [adaptGroup, List.flatMap_map]
    refine congrArg List.eraseDups (List.flatMap_congr fun m hm => ?_)
    rw [moduleDependencies, moduleDependencies, hms m hm]

theorem Collection.modules_reload (c : Collection) (t' : FileTree) (cwd : Path) :
    (c.reload t' cwd).modules = c.modules.map (Transform.reload t' cwd) :=
  List.map_append.symm

/-- **Rewording leaves everything else alone.** -/
theorem Collected.unaffected (h : Collected t cwd base request mainSeen testSeen c)
    (ht : RewordedTree t t' cwd) : Unaffected cwd request c (c.reload t' cwd) where
  main := adaptGroup_reload fun _ hm => h.specifiers_reload ht (List.mem_append_left _ hm)
  test := adaptGroup_reload fun _ hm => h.specifiers_reload ht (List.mem_append_right _ hm)
  warnings := by
    rw [Collection.adapt, Collection.adapt, c.modules_reload, List.flatMap_map]
    refine congrArg (List.foldl addWarning c.warnings) (List.flatMap_congr fun m hm => ?_)
    rw [remoteWarnings, remoteWarnings, h.specifiers_reload ht hm]
  texts := by
    rw [c.modules_reload, List.forall₂_map_right_iff, List.forall₂_same]
    intro m hm
    have hreworded := (ht.load_reload (h.loaded hm)).2
    have hsame : (c.reload t' cwd).replacing cwd request (Transform.reload t' cwd m) =
        c.replacing cwd request m := by
      rw [Collection.replacing, Collection.replacing, path_reload]
      rfl
    rw [hsame]
    exact ⟨path_reload t' cwd m, hreworded.sameBut (c.replacing cwd request m)⟩

/-- **Which texts have an effect**: every phrase counts wherever it stands, and where no phrase
touches a stretch of inert text, rewording it leaves everything else alone. -/
theorem transform_phrases {w v : Workspace} {dir : String} {request : Request}
    {output : TransformOutput}
    (hrun : (transform (.ofString dir) request).run w = (.ok output, v)) :
    ∃ c, collect w.tree w.cwd (.ofString dir) request = .ok c ∧ output = c.adapt w.cwd request ∧
      (∀ m ∈ c.modules, ∀ o : Occurrence m, o.Counts w.tree w.cwd request c output) ∧
      ∀ t', RewordedTree w.tree t' w.cwd → ∃ c', collect t' w.cwd (.ofString dir) request = .ok c' ∧
        ((transform (.ofString dir) request).run { w with tree := t' }).1 =
          .ok (c'.adapt w.cwd request) ∧
        Unaffected w.cwd request c c' := by
  obtain ⟨c, hc, rfl⟩ := collect_of_run_transform hrun
  obtain ⟨mainSeen, testSeen, h⟩ := collect_eq_ok_iff.1 hc
  refine ⟨c, hc, rfl, fun m hm o => h.counts hm o, fun t' ht => ?_⟩
  have hc' : collect t' w.cwd (.ofString dir) request = .ok (c.reload t' w.cwd) :=
    collect_eq_ok_iff.2 ⟨_, _, h.reload ht⟩
  exact ⟨c.reload t' w.cwd, hc', run_transform_of_ok (w := { w with tree := t' }) hc',
    h.unaffected ht⟩

/-! ### A comment that counts -/

/-- A module that is a comment with three phrases in it. -/
def commentModule : Module where
  path := .ofString "/p/mod.ts"
  text := "/* import \"./dep.ts\"; import \"./gone.ts\"; import \"npm:y\"; */\n"

/-- The module that the first phrase names. -/
def depModule : Module where
  path := .ofString "/p/dep.ts"
  text := "export \x7b\x7d;\n"

/-- A tree with the two modules. -/
def commentTree : FileTree :=
  ((FileTree.empty.insert ["p"] .directory).insert ["p", "mod.ts"]
    (.file commentModule.text.toUTF8)).insert ["p", "dep.ts"] (.file depModule.text.toUTF8)

/-- The package that the last phrase is mapped to. -/
def commentPackage : Mapping :=
  { name := .str "y", version := .str "1.0.0" }

/-- The comment is the only entry point. -/
def commentRequest : Request where
  entryPoints := [.str "./mod.ts"]
  testEntryPoints := []
  shimPackage := "deno.ns"
  mappings := [("npm:y", commentPackage)]

/-- Both modules are collected, and the second phrase is reported. -/
def commentCollection : Collection where
  main := [depModule, commentModule]
  test := []
  mainEntries := [commentModule.path]
  testEntries := []
  layout := { modules := [depModule.path, commentModule.path], root := ["p"] }
  warnings := ["Could not find module /p/gone.ts imported from /p/mod.ts"]

theorem collect_comment :
    collect commentTree (.ofString "/p") (.ofString "/p") commentRequest = .ok commentCollection :=
  collect_of_collectWithin 2 (by decide +kernel)

/-- **Which texts of the two modules have an effect**: transforming them succeeds. -/
theorem transform_phrases_comment : ∃ v, (transform (.ofString "/p") commentRequest).run
      (.fresh (.ofString "/p") commentTree) =
        (.ok (commentCollection.adapt (.ofString "/p") commentRequest), v) ∧
    ∃ c, collect commentTree (.ofString "/p") (.ofString "/p") commentRequest = .ok c ∧
      commentCollection.adapt (.ofString "/p") commentRequest =
        c.adapt (.ofString "/p") commentRequest ∧
      (∀ m ∈ c.modules, ∀ o : Occurrence m, o.Counts commentTree (.ofString "/p") commentRequest c
        (commentCollection.adapt (.ofString "/p") commentRequest)) ∧
      ∀ t', RewordedTree commentTree t' (.ofString "/p") → ∃ c',
        collect t' (.ofString "/p") (.ofString "/p") commentRequest = .ok c' ∧
        ((transform (.ofString "/p") commentRequest).run
          { Workspace.fresh (.ofString "/p") commentTree with tree := t' }).1 =
            .ok (c'.adapt (.ofString "/p") commentRequest) ∧
        Unaffected (.ofString "/p") commentRequest c c' := by
  have hrun : (transform (.ofString "/p") commentRequest).run
      (.fresh (.ofString "/p") commentTree) =
        (.ok (commentCollection.adapt (.ofString "/p") commentRequest),
          ((transform (.ofString "/p") commentRequest).run
            (.fresh (.ofString "/p") commentTree)).2) :=
    Prod.ext (run_transform_of_ok collect_comment) rfl
  exact ⟨_, hrun, transform_phrases hrun⟩

/-- **A comment that counts**: it is followed to a module, what it names is reported and recorded,
and it is rewritten. -/
theorem counting_comment :
    lexemes [] commentModule.text.toList =
      [.inert (commentModule.text.toList.dropLast), .code '\n'] ∧
    collect commentTree (.ofString "/p") (.ofString "/p") commentRequest = .ok commentCollection ∧
    depModule ∈ commentCollection.modules ∧
    (commentCollection.adapt (.ofString "/p") commentRequest).warnings =
      ["Could not find module /p/gone.ts imported from /p/mod.ts"] ∧
    (commentCollection.adapt (.ofString "/p") commentRequest).main.dependencies =
      [commentPackage] ∧
    (adaptModule (.ofString "/p") commentCollection.layout commentRequest commentModule).1.text =
      "/* import \"./dep.js\"; import \"./gone.ts\"; import \"y\"; */\n" := by
  have hdep : depModule.specifiers = [] := by decide +kernel
  have hcomment : commentModule.specifiers = ["./dep.ts", "./gone.ts", "npm:y"] := by
    decide +kernel
  refine ⟨?_, collect_comment, ?_, ?_, ?_, ?_⟩
  · decide +kernel
  · exact List.mem_cons_self
  · decide +kernel
  · have hmappings : ["./dep.ts", "./gone.ts", "npm:y"].filterMap
        (fun s => commentRequest.mappings.lookup s) = [commentPackage] := by rfl
    simp only [Collection.adapt, adaptGroup, commentCollection, List.flatMap_cons,
      List.flatMap_nil, moduleDependencies, hdep, hcomment, hmappings, List.filterMap_nil,
      List.nil_append, List.append_nil]
    rw [List.eraseDups_cons, List.filter_nil, List.eraseDups_nil]
  · decide +kernel

end Transform

end DenoPackager
