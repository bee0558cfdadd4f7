import DenoPackager.Proofs.Links.Phrases

/-!
# What is said and recorded about a program

What is said about a program is told by its modules alone: a message for every import that leads to
no file, and one for every remote specifier without a mapping, each of them once, whichever walk
came upon it and how often. What a group of modules depends on is told by its specifiers: the
packages that they are mapped to, each of them once and in order of first use.

Modules that both walks come upon are modules of the program, so nothing is said about a module that
is in neither group.

## Main definitions

* `Reported`: the messages about some modules.

## Main results

* `Collected.mem_warnings_iff`: what is said while the modules are collected.
* `transform_reports`: what is said and recorded about a transformed program.
-/

namespace DenoPackager.Transform

open Source

/-! ### Messages -/

variable {messages warnings : List String} {x : String}

/-- **What was said in the end** was said before, or is one of the messages. -/
theorem mem_foldl_addWarning_iff :
    x ∈ messages.foldl addWarning warnings ↔ x ∈ warnings ∨ x ∈ messages :=
  ⟨mem_foldl_addWarning, fun h => h.elim (fun hx => (isPrefix_foldl_addWarning _ _).subset hx)
    mem_foldl_addWarning_of_mem⟩

/-- **Nothing is said twice.** -/
theorem nodup_foldl_addWarning (h : warnings.Nodup) :
    (messages.foldl addWarning warnings).Nodup := by
  induction messages generalizing warnings with
  | nil => exact h
  | cons y messages ih =>
    refine ih ?_
    rw [addWarning]
    split
    · exact h
    · rename_i hnew
      exact List.nodup_append.2 ⟨h, List.nodup_singleton y, fun a ha b hb =>
        List.mem_singleton.1 hb ▸ fun hab => hnew (hab ▸ ha)⟩

variable {t : FileTree} {base cwd : Path} {request : Request} {c : Collection}
  {mainSeen testSeen seen seen' : List Module} {queue : List Path} {warnings' : List String}
  {m : Module}

/-- A walk says nothing twice. -/
theorem nodup_of_walk (h : warnings.Nodup)
    (hwalk : walk t cwd queue seen warnings = .ok (seen', warnings')) : warnings'.Nodup := by
  fun_induction walk t cwd queue seen warnings with
  | case1 seen warnings =>
    rw [Except.ok.injEq, Prod.mk.injEq] at hwalk
    exact hwalk.2 ▸ h
  | case2 seen warnings p queue hp ih => exact ih h hwalk
  | case3 seen warnings p queue hp e he => simp at hwalk
  | case4 seen warnings p queue hp m hm seen₁ ih => exact ih (nodup_foldl_addWarning h) hwalk

/-- **What both walks have seen** was collected, in one group or the other. -/
theorem Collected.mem_modules (h : Collected t cwd base request mainSeen testSeen c)
    (hm : m ∈ mainSeen ∨ m ∈ testSeen) : m ∈ c.modules := by
  obtain hm | hm := hm
  · exact List.mem_append_left _ (h.mem_main.2 hm)
  by_cases hmain : m.path ∈ mainSeen.map Module.path
  · obtain ⟨k, hk, hpath⟩ := List.mem_map.1 hmain
    -- a path names one module
    have hload := h.invariants.1.loaded k hk
    rw [hpath, h.invariants.2.loaded m hm, Except.ok.injEq] at hload
    exact List.mem_append_left _ (h.mem_main.2 (hload ▸ hk))
  · exact List.mem_append_right _ (h.mem_test.2 ⟨hm, hmain⟩)

/-- **What is said while the modules are collected**: which of their imports lead to no file. -/
theorem Collected.mem_warnings_iff (h : Collected t cwd base request mainSeen testSeen c) :
    x ∈ c.warnings ↔
      ∃ m ∈ c.modules, ∃ q ∈ m.imports, isThere t cwd q = false ∧ x = missingText m.path q := by
  constructor
  · intro hx
    obtain ⟨warnings, hmain, htest⟩ := h.walks
    obtain hx | ⟨m, hm, hsaid⟩ := (warnings_of_walk htest).2 x hx
    · obtain ⟨m, hm, hsaid⟩ := ((warnings_of_walk hmain).2 x hx).resolve_left List.not_mem_nil
      exact ⟨m, h.mem_modules (.inl hm), hsaid⟩
    · exact ⟨m, h.mem_modules (.inr hm), hsaid⟩
  · rintro ⟨m, hm, q, hq, hmissing, rfl⟩
    exact h.missing hm hq hmissing

/-- Nothing is said twice while the modules are collected. -/
theorem Collected.nodup_warnings (h : Collected t cwd base request mainSeen testSeen c) :
    c.warnings.Nodup := by
  obtain ⟨_, hmain, htest⟩ := h.walks
  exact nodup_of_walk (nodup_of_walk .nil hmain) htest

/-- **What is said about the remote specifiers** of a module: which of them have no mapping. -/
theorem mem_remoteWarnings_iff {mappings : List (String × Mapping)} :
    x ∈ remoteWarnings mappings m ↔ ∃ s ∈ m.specifiers, isRemote s = true ∧
      mappings.lookup s = none ∧ x = unmappedText s := by
  rw [remoteWarnings, List.mem_map]
  refine exists_congr fun s => ?_
  rw [List.mem_filter, Bool.and_eq_true, Option.isNone_iff_eq_none]
  tauto

/-! ### All that is said and recorded -/

/-- **The messages about some modules**, each of them once: for every relative specifier that leads
to no file where it leads and from where, and for every remote specifier that is not mapped. -/
structure Reported (t : FileTree) (cwd : Path) (mappings : List (String × Mapping)) (ms : List Module)
    (warnings : List String) : Prop where
  nodup : warnings.Nodup
  mem_iff : ∀ x, x ∈ warnings ↔
    (∃ m ∈ ms, ∃ s ∈ m.specifiers, isRelative s = true ∧
      isThere t cwd (Module.target m.path s) = false ∧
      x = "Could not find module " ++ (Module.target m.path s).text ++ " imported from " ++
        m.path.text) ∨
    ∃ m ∈ ms, ∃ s ∈ m.specifiers, isRemote s = true ∧ mappings.lookup s = none ∧
      x = "Remote specifier is not mapped and was left as is: " ++ s

/-- **What is said about all that was collected.** -/
theorem Collected.reported (h : Collected t cwd base request mainSeen testSeen c) :
    Reported t cwd request.mappings c.modules (c.adapt cwd request).warnings where
  nodup := nodup_foldl_addWarning h.nodup_warnings
  mem_iff x := by
    rw [Collection.adapt, mem_foldl_addWarning_iff, h.mem_warnings_iff, List.mem_flatMap]
    refine or_congr (exists_congr fun m => and_congr_right' ?_) (exists_congr fun m =>
      and_congr_right' mem_remoteWarnings_iff)
    simp only [Module.imports, List.mem_map, List.mem_filter]
    constructor
    · rintro ⟨_, ⟨s, ⟨hs, hrel⟩, rfl⟩, hmissing, rfl⟩
      exact ⟨s, hs, hrel, hmissing, rfl⟩
    · rintro ⟨s, hs, hrel, hmissing, rfl⟩
      exact ⟨_, ⟨s, ⟨hs, hrel⟩, rfl⟩, hmissing, rfl⟩

/-- **What a group of modules depends on**: the packages that its specifiers are mapped to, in order
of first use. -/
theorem firstUses_adaptGroup {l : Layout} {ms : List Module} {entries : List Path} :
    FirstUses ((ms.flatMap Module.specifiers).filterMap fun s => request.mappings.lookup s)
      (adaptGroup cwd l request ms entries).dependencies := by
  rw [List.filterMap_flatMap]
  exact firstUses_eraseDups _

/-- **What is said and recorded about a transformed program**: its files are those of the modules of
two groups; what is said is about these modules, and each group depends on the packages that the
specifiers in its files are mapped to. -/
theorem transform_reports {w v : Workspace} {dir : String} {request : Request}
    {output : TransformOutput}
    (hrun : (transform (.ofString dir) request).run w = (.ok output, v)) :
    ∃ c, collect w.tree w.cwd (.ofString dir) request = .ok c ∧
      output.main.files = c.main.map (fun m => (adaptModule w.cwd c.layout request m).1) ∧
      output.test.files = c.test.map (fun m => (adaptModule w.cwd c.layout request m).1) ∧
      Reported w.tree w.cwd request.mappings (c.main ++ c.test) output.warnings ∧
      FirstUses ((c.main.flatMap Module.specifiers).filterMap fun s => request.mappings.lookup s)
        output.main.dependencies ∧
      FirstUses ((c.test.flatMap Module.specifiers).filterMap fun s => request.mappings.lookup s)
        output.test.dependencies := by
  obtain ⟨c, hc, rfl⟩ := collect_of_run_transform hrun
  obtain ⟨mainSeen, testSeen, h⟩ := collect_eq_ok_iff.1 hc
  refine ⟨c, hc, ?_, ?_, h.reported, firstUses_adaptGroup, firstUses_adaptGroup⟩
  · exact List.map_map
  · exact List.map_map

/-- A module that names a missing file in two ways, and a test that repeats what the module says. -/
def strayTree : FileTree :=
  ((FileTree.empty.insert ["p"] .directory).insert ["p", "mod.ts"]
    (.file ("import \"./gone.ts\"; import \"././gone.ts\";\n" ++
      "import \"npm:y\"; import \"https://z/mod.ts\"; import \"npm:y\";\n").toUTF8)).insert
    ["p", "mod.test.ts"]
      (.file "import \"./mod.ts\"; import \"https://z/mod.ts\"; import \"npm:y\";\n".toUTF8)

/-- One specifier is mapped. -/
def strayRequest : Request where
  entryPoints := ["./mod.ts"].map .str
  testEntryPoints := ["./mod.test.ts"].map .str
  shimPackage := "deno.ns"
  mappings := [("npm:y", ⟨.str "y", .str "1.0.0"⟩)]

theorem transform_reports_stray : ∃ output v,
    (transform (.ofString ".") strayRequest).run (.fresh (.ofString "/p") strayTree) =
      (.ok output, v) ∧
    ∃ c, collect strayTree (.ofString "/p") (.ofString ".") strayRequest = .ok c ∧
      output.main.files =
        c.main.map (fun m => (adaptModule (.ofString "/p") c.layout strayRequest m).1) ∧
      output.test.files =
        c.test.map (fun m => (adaptModule (.ofString "/p") c.layout strayRequest m).1) ∧
      Reported strayTree (.ofString "/p") strayRequest.mappings (c.main ++ c.test)
        output.warnings ∧
      FirstUses ((c.main.flatMap Module.specifiers).filterMap
        fun s => strayRequest.mappings.lookup s) output.main.dependencies ∧
      FirstUses ((c.test.flatMap Module.specifiers).filterMap
        fun s => strayRequest.mappings.lookup s) output.test.dependencies := by
  have hruns : ∃ output, ((transform (.ofString ".") strayRequest).run
      (.fresh (.ofString "/p") strayTree)).1 = .ok output :=
    exists_run_transform 3 (by decide +kernel)
  obtain ⟨output, hrun⟩ := hruns
  exact ⟨_, _, Prod.ext hrun rfl, transform_reports (Prod.ext hrun rfl)⟩

end DenoPackager.Transform
