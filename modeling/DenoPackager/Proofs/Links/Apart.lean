import DenoPackager.Proofs.Links.Kept

/-!
# Tests leave the program alone

Transforming a program together with its tests gives the same program as transforming it alone. The
tests may reach modules that lie outside the directory of the program, so that all files of the
program lie further down in the output; but they lie to each other as before, and a relative
specifier says nothing else. What is said about imports that lead nowhere comes first for the
program, and what is said about the tests is never what is said about a remote specifier.

Files that climb out of the output are the exception: how such a file lies to another one depends on
the current directory, and on how far above it the output begins.

## Main definitions

* `FileGroup.below`: a group of files further down in the output.
* `FileGroup.Inside`: groups of which no file climbs out of the output.
* `Apart`: how the program with its tests lies to the program alone.

## Main results

* `relativeSpecifier_below`: specifiers do not depend on the directory that two files are put in.
* `foldl_addWarning_sublist`: what is said before does not silence what is said after it.
* `transform_tests_apart`: the program with and without its tests.
* `respelt_program`: a program that climbs out of the output, and is spelt in another way for its
  test.
-/

namespace DenoPackager

/-- **A file further down** in the output, below a directory. -/
def TransformedFile.below (dir : Path) (f : TransformedFile) : TransformedFile :=
  { f with path := (dir.joinText f.path).text }

/-- **A group of files further down** in the output: nothing changes but where they lie. -/
def FileGroup.below (dir : Path) (g : FileGroup) : FileGroup :=
  { g with
    files := g.files.map (·.below dir)
    entryPoints := g.entryPoints.map fun path => (dir.joinText path).text }

/-- **A group lies inside** the output: none of its files climbs. -/
def FileGroup.Inside (g : FileGroup) : Prop :=
  ∀ f ∈ g.files, Path.up ∉ (Path.ofString f.path).parts

namespace Source

/-- Only what the specifiers of a script are replaced by matters. -/
theorem replaceSpecifiers_congr {f g : String → String} {s : List Char}
    (h : ∀ x ∈ specifiers s, f x = g x) : replaceSpecifiers f s = replaceSpecifiers g s := by
  rw [replaceSpecifiers, replaceSpecifiers, Text.replaceAll, Text.replaceAll]
  refine List.flatMap_congr fun piece hpiece => ?_
  cases piece with
  | plain c => rfl
  | found k =>
    have hk : String.ofList k.specifier ∈ specifiers s :=
      List.mem_map_of_mem (List.mem_filterMap.2 ⟨.found k, hpiece, rfl⟩)
    rw [Text.Piece.render, Text.Piece.render, h _ hk]

end Source

namespace Transform

open Source

/-! ### Warnings -/

/-- What was said before is still there. -/
theorem isPrefix_foldl_addWarning (messages warnings : List String) :
    warnings <+: messages.foldl addWarning warnings := by
  induction messages generalizing warnings with
  | nil => exact List.prefix_refl _
  | cons x messages ih =>
    refine List.IsPrefix.trans ?_ (ih (addWarning warnings x))
    rw [addWarning]
    split
    · exact List.prefix_refl _
    · exact List.prefix_append _ _

/-- All that is said is one of the messages, or was said before. -/
theorem mem_foldl_addWarning {messages warnings : List String} {x : String}
    (h : x ∈ messages.foldl addWarning warnings) : x ∈ warnings ∨ x ∈ messages := by
  induction messages generalizing warnings with
  | nil => exact .inl h
  | cons y messages ih =>
    rcases ih h with hx | hx
    · rw [addWarning] at hx
      split at hx
      · exact .inl hx
      · rcases List.mem_append.1 hx with hx | hx
        · exact .inl hx
        · exact .inr (List.mem_singleton.1 hx ▸ List.mem_cons_self)
    · exact .inr (List.mem_cons_of_mem y hx)

/-- **Saying the same after more was said** says it in the same order, unless some of it was said
already. -/
theorem foldl_addWarning_sublist {messages warnings more : List String}
    (hsub : warnings.Sublist more) (hnew : ∀ x ∈ messages, x ∈ more → x ∈ warnings) :
    (messages.foldl addWarning warnings).Sublist (messages.foldl addWarning more) := by
  induction messages generalizing warnings more with
  | nil => exact hsub
  | cons x messages ih =>
    have hrest := fun y hy => hnew y (List.mem_cons_of_mem x hy)
    rw [List.foldl_cons, List.foldl_cons, addWarning, addWarning]
    by_cases hx : x ∈ warnings
    · rw [if_pos hx, if_pos (hsub.subset hx)]
      exact ih hsub hrest
    · have hmore : x ∉ more := fun h => hx (hnew x List.mem_cons_self h)
      rw [if_neg hx, if_neg hmore]
      refine ih (hsub.append (List.Sublist.refl [x])) fun y hy hmem => ?_
      rcases List.mem_append.1 hmem with h | h
      · exact List.mem_append_left _ (hrest y hy h)
      · exact List.mem_append_right _ h

/-- Texts that start with different characters are different, whatever follows. -/
theorem append_ne_append {a b : String} {x y : Char} (ha : a.toList.head? = some x)
    (hb : b.toList.head? = some y) (hne : x ≠ y) (s t : String) : a ++ s ≠ b ++ t := by
  intro h
  have hhead := congrArg (fun u : String => u.toList.head?) h
  simp only [String.toList_append, List.head?_append, ha, hb, Option.some_or,
    Option.some.injEq] at hhead
  exact hne hhead

/-- What is said about a missing module is not said about a remote specifier. -/
theorem missingText_ne_unmappedText (source target : Path) (specifier : String) :
    missingText source target ≠ unmappedText specifier := by
  unfold missingText unmappedText
  rw [String.append_assoc, String.append_assoc]
  exact append_ne_append (x := 'C') (y := 'R') (by decide +kernel) (by decide +kernel) (by decide) _ _

/-- **What a walk says** is about missing imports of the modules that it has seen, and is said after
what was said before. -/
theorem warnings_of_walk {t : FileTree} {cwd : Path} {queue : List Path} {seen seen' : List Module}
    {warnings warnings' : List String}
    (hwalk : walk t cwd queue seen warnings = .ok (seen', warnings')) :
    warnings <+: warnings' ∧ ∀ x ∈ warnings', x ∈ warnings ∨
      ∃ m ∈ seen', ∃ q ∈ m.imports, isThere t cwd q = false ∧ x = missingText m.path q := by
  fun_induction walk t cwd queue seen warnings with
  | case1 seen warnings =>
    rw [Except.ok.injEq, Prod.mk.injEq] at hwalk
    rw [← hwalk.2]
    exact ⟨List.prefix_refl _, fun x hx => .inl hx⟩
  | case2 seen warnings p queue hp ih => exact ih hwalk
  | case3 seen warnings p queue hp e he => simp at hwalk
  | case4 seen warnings p queue hp m hm seen₁ ih =>
    obtain ⟨hstart, hmem⟩ := ih hwalk
    refine ⟨(isPrefix_foldl_addWarning _ _).trans hstart, fun x hx => ?_⟩
    rcases hmem x hx with hx | hx
    · rcases mem_foldl_addWarning hx with hx | hx
      · exact .inl hx
      · obtain ⟨q, hq, rfl⟩ := List.mem_map.1 hx
        obtain ⟨himport, hnew⟩ := List.mem_filter.1 hq
        have hseen : m ∈ seen' := (subset_of_walk hwalk).1 m (by simp [seen₁])
        exact .inr ⟨m, hseen, q, himport, by simpa using (Bool.and_eq_true_iff.1 hnew).2, rfl⟩
    · exact .inr hx

/-! ### The program alone and with its tests -/

/-- The same program without its tests. -/
def Request.alone (request : Request) : Request :=
  { request with testEntryPoints := [] }

variable {t : FileTree} {base cwd : Path} {request : Request} {c k : Collection}
  {mainSeen testSeen mainSeen' testSeen' : List Module}

/-- Nothing is collected for the tests if there are none. -/
theorem Collected.test_eq_nil (h : Collected t cwd base request.alone mainSeen testSeen c) :
    c.test = [] ∧ walk t cwd c.mainEntries [] [] = .ok (mainSeen, c.warnings) := by
  obtain ⟨warnings, hmain, htest⟩ := h.walks
  have hentries : c.testEntries = [] := List.forall₂_nil_left_iff.1 h.testEntries
  rw [hentries, walk, Except.ok.injEq, Prod.mk.injEq] at htest
  rw [h.test, ← htest.1, hmain, htest.2]
  exact ⟨List.mergeSort_nil, rfl⟩

/-- **The modules of the program** do not depend on its tests. -/
theorem Collected.main_eq (h : Collected t cwd base request.alone mainSeen testSeen c)
    (hk : Collected t cwd base request mainSeen' testSeen' k) :
    c.mainEntries = k.mainEntries ∧ c.main = k.main ∧ c.warnings <+: k.warnings ∧
      ∀ x ∈ k.warnings, x ∈ c.warnings ∨ ∃ source target, x = missingText source target := by
  have hentries : c.mainEntries = k.mainEntries :=
    Except.ok.inj ((Except.mapM_eq_ok_iff.2 h.mainEntries).symm.trans
      (Except.mapM_eq_ok_iff.2 hk.mainEntries))
  obtain ⟨warnings, hmain, htest⟩ := hk.walks
  have hwalk := h.test_eq_nil.2
  rw [hentries, hmain, Except.ok.injEq, Prod.mk.injEq] at hwalk
  rw [hwalk.2] at htest
  refine ⟨hentries, ?_, (warnings_of_walk htest).imp_right fun hsaid x hx =>
    (hsaid x hx).imp_right fun ⟨m, _, q, _, _, hx⟩ => ⟨m.path, q, hx⟩⟩
  rw [h.main, hk.main, hwalk.1]

/-- The deepest directory of more modules lies above. -/
theorem commonDirectory_append (ds es : List Place) (hne : ds ≠ []) :
    commonDirectory (ds ++ es) <+: commonDirectory ds := by
  obtain ⟨d, ds, rfl⟩ := List.exists_cons_of_ne_nil hne
  rw [List.cons_append, commonDirectory, commonDirectory, List.foldl_append]
  exact (foldl_commonStart_isPrefix _ es).1

/-- **Where the output of the program begins** if its tests are there too: further up, or at the
same place. -/
theorem Collected.exists_dirs (h : Collected t cwd base request.alone mainSeen testSeen c)
    (hk : Collected t cwd base request mainSeen' testSeen' k) (hne : c.main ≠ []) :
    ∃ dirs, c.layout.root = k.layout.root ++ dirs := by
  have hroot : ∀ {r : Request} {s s' : List Module} {x : Collection},
      Collected t cwd base r s s' x → x.layout.root =
        commonDirectory (x.main.map (·.path.parts.dropLast) ++
          x.test.map (·.path.parts.dropLast)) := by
    intro r s s' x hx
    rw [(ofModules_eq_ok_iff.1 hx.layout).2]
    simp only [Collection.modules, List.map_map, List.map_append]
    rfl
  have hmain := (h.main_eq hk).2.1
  have hprefix := commonDirectory_append (k.main.map (·.path.parts.dropLast))
    (k.test.map (·.path.parts.dropLast)) (by simpa [hmain] using hne)
  rw [← hroot hk, ← hmain] at hprefix
  rw [hroot h, h.test_eq_nil.1, List.map_nil, List.append_nil]
  exact hprefix.imp fun _ => Eq.symm

section

variable {dirs : List String} {m n : Module}

/-- **A module lies further down** in the output if the tests are there too. -/
theorem Collected.outPath_below (h : Collected t cwd base request.alone mainSeen testSeen c)
    (hbase : base.Proper) (hroot : c.layout.root = k.layout.root ++ dirs) (hm : m ∈ c.modules) :
    k.layout.outPath m.path = ((⟨.none, dirs⟩ : Path).joinText (c.layout.outPath m.path)).text := by
  obtain ⟨inner, name, hparts⟩ := h.parts_eq hm
  have hproper := h.proper_rest hbase hm hparts
  rw [outPath_of_parts hparts, Path.joinText, Path.ofString_text hproper]
  rw [hroot, List.append_assoc] at hparts
  rw [outPath_of_parts hparts, Path.join]

/-- **Specifiers do not depend on the directory** that two files are put in, if they lie inside the
output. -/
theorem Collected.relativeSpecifier_below
    (h : Collected t cwd base request.alone mainSeen testSeen c)
    (hk : Collected t cwd base request mainSeen' testSeen' k) (hbase : base.Proper)
    (hroot : c.layout.root = k.layout.root ++ dirs) (hm : m ∈ c.main) (hn : n ∈ c.main)
    (hmInside : c.layout.Inside m.path) (hnInside : c.layout.Inside n.path) :
    relativeSpecifier cwd (k.layout.outPath m.path) (k.layout.outPath n.path) =
      relativeSpecifier cwd (c.layout.outPath m.path) (c.layout.outPath n.path) := by
  have hmem : ∀ {x : Module}, x ∈ c.main → x ∈ k.modules := fun hx =>
    List.mem_append_left _ ((h.main_eq hk).2.1 ▸ hx)
  have hmc := List.mem_append_left c.test hm
  have hnc := List.mem_append_left c.test hn
  obtain ⟨common, climb, inner, sourceName, name, hsource, htarget, hcut⟩ := h.exists_common hmc hnc
  have hsourceBelow : m.path.parts = k.layout.root ++ ((dirs ++ common) ++ climb ++ [sourceName]) := by
    rw [hsource, hroot]
    simp only [List.append_assoc]
  have htargetBelow : n.path.parts = k.layout.root ++ ((dirs ++ common) ++ (inner ++ [name])) := by
    rw [htarget, hroot]
    simp only [List.append_assoc]
  rw [Layout.inside_iff hsource] at hmInside
  rw [Layout.inside_iff htarget] at hnInside
  have hclimbUp : Path.up ∉ climb := fun hup =>
    hmInside (List.mem_append_left _ (List.mem_append_right _ hup))
  have hdownUp : Path.up ∉ inner ++ [name] := fun hup => hnInside (List.mem_append_right _ hup)
  rw [outPath_of_parts hsource, outPath_of_parts htarget, outPath_of_parts hsourceBelow,
    outPath_of_parts htargetBelow,
    relativeSpecifier_eq cwd (h.proper_rest hbase hmc hsource) (h.proper_rest hbase hnc htarget)
      hclimbUp hdownUp hcut,
    relativeSpecifier_eq cwd (hk.proper_rest hbase (hmem hm) hsourceBelow)
      (hk.proper_rest hbase (hmem hn) htargetBelow) hclimbUp hdownUp hcut]

/-- A specifier leads to a module of the program from there, with and without the tests. -/
theorem Collected.target_mem_iff (h : Collected t cwd base request.alone mainSeen testSeen c)
    (hk : Collected t cwd base request mainSeen' testSeen' k) (hm : m ∈ c.main) {s : String}
    (hs : s ∈ m.specifiers) (hrel : isRelative s = true) :
    Module.target m.path s ∈ k.layout.modules ↔ ∃ n ∈ c.main, n.path = Module.target m.path s := by
  have hmain := (h.main_eq hk).2.1
  rw [hk.modules_layout]
  constructor
  · intro hmem
    obtain ⟨n, hn, hpath⟩ := List.mem_map.1 hmem
    have hthere := isThere_of_load (hk.loaded hn)
    rw [hpath] at hthere
    rw [hmain] at hm ⊢
    exact hk.main_closed hm (List.mem_map_of_mem (List.mem_filter.2 ⟨hs, hrel⟩)) hthere
  · rintro ⟨n, hn, hpath⟩
    rw [hmain] at hn
    exact List.mem_map.2 ⟨n, List.mem_append_left _ hn, hpath⟩

/-- **What takes the place of a specifier** of a program that lies inside the output does not depend
on its tests. -/
theorem Collected.replacement_below (h : Collected t cwd base request.alone mainSeen testSeen c)
    (hk : Collected t cwd base request mainSeen' testSeen' k) (hbase : base.Proper)
    (hroot : c.layout.root = k.layout.root ++ dirs)
    (hinside : ∀ x ∈ c.main, c.layout.Inside x.path) (hm : m ∈ c.main) {s : String}
    (hs : s ∈ m.specifiers) :
    replacement cwd k.layout request.mappings m.path s =
      replacement cwd c.layout request.mappings m.path s := by
  rw [replacement, replacement]
  cases request.mappings.lookup s with
  | some mapping => rfl
  | none =>
    by_cases hrel : isRelative s = true
    · have hboth := h.target_mem_iff hk hm hs hrel
      have hself : Collected t cwd base request.alone.alone mainSeen testSeen c := h
      have halone := hself.target_mem_iff h hm hs hrel
      by_cases hmem : Module.target m.path s ∈ k.layout.modules
      · obtain ⟨n, hn, hpath⟩ := hboth.1 hmem
        have hmem' := halone.2 ⟨n, hn, hpath⟩
        simp only [if_pos (And.intro hrel hmem), if_pos (And.intro hrel hmem')]
        rw [← hpath]
        exact h.relativeSpecifier_below hk hbase hroot hm hn (hinside m hm) (hinside n hn)
      · have hmem' : Module.target m.path s ∉ c.layout.modules := fun hc =>
          hmem (hboth.2 (halone.1 hc))
        simp only [hrel, hmem, hmem', and_false, if_false]
    · simp only [hrel, false_and, if_false, Bool.false_eq_true]

/-- **An adapted module lies further down**, and nothing else changes if the program lies inside the
output. -/
theorem Collected.adaptModule_below (h : Collected t cwd base request.alone mainSeen testSeen c)
    (hk : Collected t cwd base request mainSeen' testSeen' k) (hbase : base.Proper)
    (hroot : c.layout.root = k.layout.root ++ dirs)
    (hinside : ∀ x ∈ c.main, c.layout.Inside x.path) (hm : m ∈ c.main) :
    adaptModule cwd k.layout request m =
      ((adaptModule cwd c.layout request.alone m).1.below ⟨.none, dirs⟩,
        (adaptModule cwd c.layout request.alone m).2) := by
  have hsame : replaceSpecifiers (replacement cwd k.layout request.mappings m.path) m.text.toList =
      replaceSpecifiers (replacement cwd c.layout request.mappings m.path) m.text.toList :=
    replaceSpecifiers_congr fun s hs => h.replacement_below hk hbase hroot hinside hm hs
  have hpath := h.outPath_below hbase hroot (List.mem_append_left c.test hm)
  simp only [adaptModule, TransformedFile.below, Request.alone, hsame, hpath]

/-- The entry points of the program lie further down as well. -/
theorem Collected.mainEntries_below (h : Collected t cwd base request.alone mainSeen testSeen c)
    (hbase : base.Proper) (hroot : c.layout.root = k.layout.root ++ dirs) :
    c.mainEntries.map k.layout.outPath =
      (c.mainEntries.map c.layout.outPath).map
        fun path => ((⟨.none, dirs⟩ : Path).joinText path).text := by
  rw [List.map_map]
  refine List.map_congr_left fun e he => ?_
  obtain ⟨m, hm, rfl⟩ := h.mainEntry he
  exact h.outPath_below hbase hroot (List.mem_append_left c.test hm)

/-- **The group of the program lies further down**, and nothing else changes if it lies inside the
output. -/
theorem Collected.adaptGroup_below (h : Collected t cwd base request.alone mainSeen testSeen c)
    (hk : Collected t cwd base request mainSeen' testSeen' k) (hbase : base.Proper)
    (hroot : c.layout.root = k.layout.root ++ dirs)
    (hinside : ∀ x ∈ c.main, c.layout.Inside x.path) :
    adaptGroup cwd k.layout request c.main c.mainEntries =
      (adaptGroup cwd c.layout request.alone c.main c.mainEntries).below ⟨.none, dirs⟩ := by
  have hmodules : c.main.map (adaptModule cwd k.layout request) =
      (c.main.map (adaptModule cwd c.layout request.alone)).map
        fun a => (a.1.below ⟨.none, dirs⟩, a.2) := by
    rw [List.map_map]
    exact List.map_congr_left fun m hm => h.adaptModule_below hk hbase hroot hinside hm
  simp only [adaptGroup, FileGroup.below, hmodules, h.mainEntries_below hbase hroot, List.map_map,
    List.any_map, Request.alone]
  rfl

end

/-! ### The two outputs -/

/-- The paths of a group are the output paths of its modules. -/
theorem paths_adaptGroup (cwd : Path) (layout : Layout) (request : Request) (ms : List Module)
    (entries : List Path) :
    (adaptGroup cwd layout request ms entries).files.map TransformedFile.path =
      ms.map fun m => layout.outPath m.path := by
  rw [adaptGroup, List.map_map, List.map_map]
  rfl

/-- **The program lies inside** the output exactly if its modules do. -/
theorem Collected.main_inside_iff (h : Collected t cwd base request mainSeen testSeen c)
    (hbase : base.Proper) :
    (c.adapt cwd request).main.Inside ↔ ∀ m ∈ c.main, c.layout.Inside m.path := by
  have hfiles : (c.adapt cwd request).main.Inside ↔
      ∀ p ∈ (c.adapt cwd request).main.files.map TransformedFile.path,
        Path.up ∉ (Path.ofString p).parts := by
    rw [FileGroup.Inside, List.forall_mem_map]
  rw [hfiles, Collection.adapt, paths_adaptGroup, List.forall_mem_map]
  refine forall₂_congr fun m hm => ?_
  have hmc := List.mem_append_left c.test hm
  obtain ⟨dirs, name, hparts⟩ := h.parts_eq hmc
  rw [outPath_of_parts hparts, Path.ofString_text (h.proper_rest hbase hmc hparts),
    Layout.inside_iff hparts]

/-- **The program apart** from its tests: without them its files are the same ones in the same order,
below a directory, with the same dependencies, and what is said is said with the tests as well. If
the program lies inside the output, nothing but where its files lie is different. -/
structure Apart (alone together : TransformOutput) (dir : Path) : Prop where
  root : dir.root = .none
  proper : dir.Proper
  paths : together.main.files.map TransformedFile.path =
    alone.main.files.map fun f => (dir.joinText f.path).text
  entryPoints : together.main.entryPoints =
    alone.main.entryPoints.map fun path => (dir.joinText path).text
  dependencies : together.main.dependencies = alone.main.dependencies
  inside : alone.main.Inside → together.main = alone.main.below dir
  warnings : alone.warnings.Sublist together.warnings

/-- What is said about the program alone is said in the same order if its tests are there too. -/
theorem Collected.warnings_sublist (h : Collected t cwd base request.alone mainSeen testSeen c)
    (hk : Collected t cwd base request mainSeen' testSeen' k) :
    (c.adapt cwd request.alone).warnings.Sublist (k.adapt cwd request).warnings := by
  obtain ⟨-, hmain, hprefix, hmissing⟩ := h.main_eq hk
  have hmodules : c.modules = c.main := by
    rw [Collection.modules, h.test_eq_nil.1, List.append_nil]
  rw [Collection.adapt, Collection.adapt, hmodules, Collection.modules, ← hmain, List.flatMap_append,
    List.foldl_append]
  refine List.Sublist.trans ?_ (isPrefix_foldl_addWarning _ _).sublist
  refine foldl_addWarning_sublist hprefix.sublist fun x hx hmem => ?_
  refine (hmissing x hmem).resolve_right ?_
  rintro ⟨source, target, rfl⟩
  obtain ⟨m, -, hx⟩ := List.mem_flatMap.1 hx
  obtain ⟨s, -, hs⟩ := List.mem_map.1 hx
  exact missingText_ne_unmappedText source target s hs.symm

/-- **What is collected for the program** lies apart from its tests. -/
theorem Collected.apart (h : Collected t cwd base request.alone mainSeen testSeen c)
    (hk : Collected t cwd base request mainSeen' testSeen' k) (hbase : base.Proper) :
    ∃ dir, Apart (c.adapt cwd request.alone) (k.adapt cwd request) dir := by
  obtain ⟨hentries, hmain, -, -⟩ := h.main_eq hk
  have halone : (c.adapt cwd request.alone).main =
      adaptGroup cwd c.layout request.alone c.main c.mainEntries := rfl
  have htogether : (k.adapt cwd request).main =
      adaptGroup cwd k.layout request c.main c.mainEntries := by
    rw [hentries, hmain]
    rfl
  by_cases hne : c.main = []
  · -- a program without modules has no entry points either
    have hnone : c.mainEntries = [] := by
      refine List.eq_nil_iff_forall_not_mem.2 fun e he => ?_
      obtain ⟨m, hm, -⟩ := h.mainEntry he
      rw [hne] at hm
      simp at hm
    rw [hne, hnone] at halone htogether
    exact ⟨⟨.none, []⟩,
      { root := rfl
        proper := by simp [Path.Proper]
        paths := by rw [halone, htogether]; rfl
        entryPoints := by rw [halone, htogether]; rfl
        dependencies := by rw [halone, htogether]; rfl
        inside := fun _ => by rw [halone, htogether]; rfl
        warnings := h.warnings_sublist hk }⟩
  · obtain ⟨dirs, hroot⟩ := h.exists_dirs hk hne
    obtain ⟨m, hm⟩ := List.exists_mem_of_ne_nil _ hne
    have hmc : m ∈ c.modules := List.mem_append_left _ hm
    obtain ⟨inner, name, hparts⟩ := h.parts_eq hmc
    refine ⟨⟨.none, dirs⟩,
      { root := rfl
        proper := fun x hx => (h.settled hbase hmc).proper x (by rw [hparts, hroot]; simp [hx])
        paths := ?paths, entryPoints := ?entryPoints, dependencies := ?dependencies
        inside := ?inside, warnings := h.warnings_sublist hk }⟩
    case paths =>
      have hbelow : (c.adapt cwd request.alone).main.files.map
          (fun f => ((⟨.none, dirs⟩ : Path).joinText f.path).text) =
          ((c.adapt cwd request.alone).main.files.map TransformedFile.path).map
            fun path => ((⟨.none, dirs⟩ : Path).joinText path).text := by
        rw [List.map_map]
        rfl
      rw [hbelow, halone, htogether, paths_adaptGroup, paths_adaptGroup, List.map_map]
      exact List.map_congr_left fun n hn =>
        h.outPath_below hbase hroot (List.mem_append_left c.test hn)
    case entryPoints =>
      rw [halone, htogether]
      exact h.mainEntries_below hbase hroot
    case dependencies =>
      rw [halone, htogether]
      rfl
    case inside =>
      intro hinside
      rw [halone, htogether]
      exact h.adaptGroup_below hk hbase hroot ((h.main_inside_iff hbase).1 hinside)

/-- A module with an import that leads nowhere, and a test that imports it from another
directory. -/
def outsideTree : FileTree :=
  (((FileTree.empty.insert ["p", "src"] .directory).insert ["p", "tests"] .directory).insert
    ["p", "src", "mod.ts"] (.file "import \"./gone.ts\"; import \"https://x/y.ts\";\n".toUTF8)).insert
    ["p", "tests", "mod.test.ts"] (.file "import \"../src/mod.ts\";\n".toUTF8)

/-- What is asked for: the module and its test. -/
def outsideRequest : Request where
  entryPoints := ["./src/mod.ts"].map .str
  testEntryPoints := ["./tests/mod.test.ts"].map .str
  shimPackage := "deno.ns"
  mappings := []

/-- A library next to the current directory, which imports a module in it on the way through the root
of the tree, and a test in the current directory. The import stands behind a quote in a regular
expression. -/
def respeltTree : FileTree :=
  ((((FileTree.empty.insert ["Deno.d"] .directory).insert ["lib"] .directory).insert
    ["Deno.d", "y.ts"] (.file "".toUTF8)).insert ["lib", "x.ts"]
    (.file "const quote = /\"/; import \"../../Deno.d/y.ts\";\n".toUTF8)).insert
    ["Deno.d", "mod.test.ts"] (.file "".toUTF8)

/-- What is asked for: the library and the test. -/
def respeltRequest : Request where
  entryPoints := ["../lib/x.ts"].map .str
  testEntryPoints := ["./mod.test.ts"].map .str
  shimPackage := "deno.ns"
  mappings := []

end Transform

end DenoPackager
